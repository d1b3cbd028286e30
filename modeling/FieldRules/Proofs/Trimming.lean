import FieldRules.Proofs.Overwriting
import Mathlib.Data.List.Forall2

/-! What may become of a subject under check: strings in it are trimmed. What is found at a path
stays found, and set or unset, whatever is trimmed. -/
namespace FieldRules

namespace Entries
variable {α : Type} {R : α → α → Prop}

theorem rel_get? {es fs : Entries α} (hk : keys es = keys fs)
    (h : List.Forall₂ R (es.map Prod.snd) (fs.map Prod.snd)) (key : String) :
    Option.Rel R (get? key es) (get? key fs) := by
  induction es generalizing fs with
  | nil =>
    obtain rfl : fs = [] := by simpa [keys] using hk.symm
    exact .none
  | cons e es ih =>
    cases fs with
    | nil => simp [keys] at hk
    | cons f fs =>
      obtain ⟨hef, hk⟩ := by simpa [keys] using hk
      obtain ⟨hv, h⟩ := List.forall₂_cons.1 h
      by_cases he : f.1 = key
      · rw [get?, get?, if_pos he, if_pos (hef.trans he)]
        exact .some hv
      · rw [get?, get?, if_neg he, if_neg (hef ▸ he)]
        exact ih hk h

/-- Related values under the same name. -/
theorem forall₂_put {key : String} {v w : α} {es fs : Entries α} (hk : keys es = keys fs)
    (h : List.Forall₂ R (es.map Prod.snd) (fs.map Prod.snd)) (hvw : R v w) :
    keys (put key v es) = keys (put key w fs) ∧
      List.Forall₂ R ((put key v es).map Prod.snd) ((put key w fs).map Prod.snd) := by
  induction es generalizing fs with
  | nil =>
    obtain rfl : fs = [] := by simpa [keys] using hk.symm
    simp [put, keys, hvw]
  | cons e es ih =>
    cases fs with
    | nil => simp [keys] at hk
    | cons f fs =>
      obtain ⟨hef, hk⟩ := by simpa [keys] using hk
      obtain ⟨hx, h⟩ := List.forall₂_cons.1 h
      by_cases he : f.1 = key
      · rw [put, put, if_pos he, if_pos (hef.trans he)]
        exact ⟨congrArg₂ List.cons hef hk, .cons hvw h⟩
      · obtain ⟨hk', h'⟩ := ih hk h
        rw [put, put, if_neg he, if_neg (hef ▸ he)]
        exact ⟨congrArg₂ List.cons hef hk', .cons hx h'⟩

end Entries

namespace Value

/-- Of a list or an object it may be assumed of all that stands in it. -/
theorem nested_induction {motive : Value → Prop}
    (leaf : ∀ v, (∀ xs, v ≠ .list xs) → (∀ es, v ≠ .object es) → motive v)
    (list : ∀ xs : List Value, (∀ x ∈ xs, motive x) → motive (.list xs))
    (object : ∀ es : Entries Value, (∀ x ∈ es.map Prod.snd, motive x) → motive (.object es)) :
    ∀ v, motive v
  | .list xs => list xs fun x hx =>
    have hlt : sizeOf x < sizeOf (Value.list xs) :=
      Nat.lt_of_lt_of_le (List.sizeOf_lt_of_mem hx) (by simp)
    nested_induction leaf list object x
  | .object es => object es fun x hx =>
    have hlt : sizeOf x < sizeOf (Value.object es) := by
      obtain ⟨⟨k, v⟩, he, rfl⟩ := List.mem_map.1 hx
      have := List.sizeOf_lt_of_mem he
      simp at this ⊢
      omega
    nested_induction leaf list object x
  | .null => leaf _ (by simp) (by simp)
  | .scalar _ => leaf _ (by simp) (by simp)
  | .nilable _ => leaf _ (by simp) (by simp)
  | .unset _ => leaf _ (by simp) (by simp)
termination_by v => sizeOf v
decreasing_by all_goals exact hlt

/-- Strings, bare or in a nilable, may have been trimmed; all else is as it was. -/
inductive TrimsTo : Value → Value → Prop
  | same (v : Value) : TrimsTo v v
  | string (s : String) : TrimsTo (.scalar (.string s)) (.scalar (.string (Text.trim s)))
  | nilable (s : String) : TrimsTo (.nilable (.string s)) (.nilable (.string (Text.trim s)))
  | list {xs ys : List Value} (h : List.Forall₂ TrimsTo xs ys) : TrimsTo (.list xs) (.list ys)
  | object {es fs : Entries Value} (hk : Entries.keys es = Entries.keys fs)
      (h : List.Forall₂ TrimsTo (es.map Prod.snd) (fs.map Prod.snd)) :
      TrimsTo (.object es) (.object fs)

theorem trimmed_trimmed (v : Value) : v.trimmed.trimmed = v.trimmed := by
  cases v with
  | scalar s => cases s <;> simp [trimmed, Scalar.trimmed]
  | nilable s => cases s <;> simp [trimmed, Scalar.trimmed]
  | _ => rfl

namespace TrimsTo

theorem trimmed (v : Value) : v.TrimsTo v.trimmed := by
  cases v with
  | scalar s =>
    cases s with
    | string s => exact .string s
    | _ => exact .same _
  | nilable s =>
    cases s with
    | string s => exact .nilable s
    | _ => exact .same _
  | _ => exact .same _

theorem forall₂_trans {R : Value → Value → Prop} {xs ys zs : List Value}
    (hr : ∀ x ∈ xs, ∀ y z, R x y → R y z → R x z) (h : List.Forall₂ R xs ys)
    (h' : List.Forall₂ R ys zs) : List.Forall₂ R xs zs := by
  induction h generalizing zs with
  | nil => exact h'
  | cons hx _ ih =>
    cases h' with
    | cons hy h' =>
      exact .cons (hr _ (by simp) _ _ hx hy) (ih (fun x hx => hr x (by simp [hx])) h')

theorem trans {u v w : Value} (h : u.TrimsTo v) (h' : v.TrimsTo w) : u.TrimsTo w := by
  induction u using Value.nested_induction generalizing v w with
  | leaf u hl ho =>
    cases h with
    | same => exact h'
    | string s =>
      cases h' with
      | same => exact .string s
      | string =>
        rw [Text.trim_trim]
        exact .string s
    | nilable s =>
      cases h' with
      | same => exact .nilable s
      | nilable =>
        rw [Text.trim_trim]
        exact .nilable s
    | list => exact absurd rfl (hl _)
    | object => exact absurd rfl (ho _)
  | list xs ih =>
    cases h with
    | same => exact h'
    | list h =>
      cases h' with
      | same => exact .list h
      | list h' => exact .list (forall₂_trans (fun x hx y z => ih x hx) h h')
  | object es ih =>
    cases h with
    | same => exact h'
    | object hk h =>
      cases h' with
      | same => exact .object hk h
      | object hk' h' => exact .object (hk.trans hk') (forall₂_trans (fun x hx y z => ih x hx) h h')

section
variable {v w : Value} (h : v.TrimsTo w)
include h

theorem isNull : w.isNull = v.isNull := by cases h <;> rfl

theorem isUnset : w.isUnset = v.isUnset := by cases h <;> rfl

end

end TrimsTo

/-- The same obstacle, nothing both times, or a value and what may become of it. -/
inductive Matches : Except Obstacle (Option Value) → Except Obstacle (Option Value) → Prop
  | error (e : Obstacle) : Matches (.error e) (.error e)
  | ok {a b : Option Value} (h : Option.Rel TrimsTo a b) : Matches (.ok a) (.ok b)

theorem Matches.refl (x : Except Obstacle (Option Value)) : Matches x x := by
  cases x with
  | error e => exact .error e
  | ok o =>
    cases o with
    | none => exact .ok .none
    | some v => exact .ok (.some (.same v))

theorem rel_getElem? {R : Value → Value → Prop} {xs ys : List Value} (h : List.Forall₂ R xs ys)
    (i : Nat) : Option.Rel R xs[i]? ys[i]? := by
  induction h generalizing i with
  | nil => exact .none
  | cons hx _ ih =>
    cases i with
    | zero => exact .some hx
    | succ i => simpa using ih i

theorem TrimsTo.child? {v w : Value} (h : v.TrimsTo w) (s : String) :
    Matches (v.child? s) (w.child? s) := by
  cases h with
  | same => exact .refl _
  | string => exact .error _
  | nilable => exact .error _
  | list h =>
    simp only [Value.child?]
    cases Text.natural? s.toList with
    | none => exact .error _
    | some i => exact .ok (rel_getElem? h i)
  | object hk h => exact .ok (Entries.rel_get? hk h s)

theorem TrimsTo.walk {v w : Value} (h : v.TrimsTo w) (p : List String) :
    Matches (v.walk p) (w.walk p) := by
  induction p generalizing v w with
  | nil =>
    rw [walk_nil, walk_nil, h.isNull]
    cases v.isNull with
    | true => exact .ok .none
    | false => exact .ok (.some h)
  | cons s p ih =>
    have hc := h.child? s
    rw [walk_cons, walk_cons]
    generalize v.child? s = a at hc
    generalize w.child? s = b at hc
    cases hc with
    | error e => exact .error e
    | ok hab =>
      cases hab with
      | none => exact .ok .none
      | some hab => exact ih hab

theorem forall₂_set {R : Value → Value → Prop} {xs ys : List Value} {v w : Value}
    (h : List.Forall₂ R xs ys) (hvw : R v w) (i : Nat) :
    List.Forall₂ R (xs.set i v) (ys.set i w) := by
  induction h generalizing i with
  | nil => exact .nil
  | cons hx h ih =>
    cases i with
    | zero => exact .cons hvw h
    | succ i => exact .cons hx (ih i)

theorem trimsTo_setChild {v w x : Value} {s : String} (hc : v.child? s = .ok (some w))
    (h : w.TrimsTo x) : v.TrimsTo (v.setChild s x) := by
  suffices hboth : (v.setChild s w).TrimsTo (v.setChild s x) by rwa [setChild_self hc] at hboth
  cases v with
  | object es =>
    obtain ⟨hk, hes⟩ := Entries.forall₂_put rfl (List.forall₂_same.2 fun y _ => .same y) h
    exact .object hk hes
  | list items =>
    simp only [setChild]
    cases Text.natural? s.toList with
    | none => exact .same _
    | some i => exact .list (forall₂_set (List.forall₂_same.2 fun y _ => .same y) h i)
  | _ => exact .same _

/-- A value that may become of the one at the end of the way is stored there. -/
theorem trimsTo_put {v x : Value} {p : List String}
    (h : ∀ w, v.walk p = .ok (some w) → w.TrimsTo x) : v.TrimsTo (v.put p x) := by
  induction p generalizing v with
  | nil =>
    cases hv : v.isNull with
    | true =>
      rw [put, if_pos hv]
      exact .same v
    | false =>
      rw [put_nil_of_not_null hv]
      exact h v (by simp [hv])
  | cons s p ih =>
    rcases v.child_cases s with ⟨w, hw⟩ | hn
    · rw [put_cons_of_child hw]
      refine trimsTo_setChild hw (ih fun u hu => h u ?_)
      rw [walk_cons, hw]
      exact hu
    · rw [put_cons_of_no_child hn]
      exact .same v

theorem walk_of_resolve {v : Value} {p : FieldPath} {found : Option Value}
    (h : v.resolve p = .ok found) : v.walk p.segments = .ok found := by
  rw [resolve] at h
  cases hw : v.walk p.segments with
  | error e => simp [hw, Except.mapError] at h
  | ok found' => simpa [hw, Except.mapError] using h

/-- What resolving a path tells apart from the value itself: an obstacle, nothing, or whether what
is there is unset. -/
def standing (v : Value) (p : FieldPath) : Except PathError (Option Bool) :=
  (v.resolve p).map (Option.map isUnset)

theorem TrimsTo.standing {v w : Value} (h : v.TrimsTo w) : w.standing = v.standing := by
  funext p
  have hw := h.walk p.segments
  rw [Value.standing, Value.standing, resolve, resolve]
  generalize v.walk p.segments = a at hw
  generalize w.walk p.segments = b at hw
  cases hw with
  | error e => rfl
  | ok hab =>
    cases hab with
    | none => rfl
    | some hab => simp [Except.mapError, Except.map, hab.isUnset]

/-- Whichever trimmings of a value stand at a place, all paths stand alike. -/
theorem standing_put {u v w x : Value} {p : List String} (hw : v.walk p = .ok (some w))
    (huw : u.TrimsTo w) (hux : u.TrimsTo x) : (v.put p x).standing = v.standing := by
  have hu : u.isNull = false := by rw [← huw.isNull, isNull_eq_false_of_walk hw]
  have hback : ∀ y, u.TrimsTo y → (v.put p u).TrimsTo (v.put p y) := by
    intro y hy
    rw [← put_put hu v p y]
    refine trimsTo_put fun z hz => ?_
    obtain rfl : u = z := by simpa [walk_put_self hw hu] using hz
    exact hy
  have hv := (hback w huw).standing
  rw [put_walk hw] at hv
  rw [(hback x hux).standing, hv]

end Value
end FieldRules

import FieldRules.Rule.Check

/-! Storing a value at a place in a subject: what is found there and elsewhere afterwards, and which
writes can change places. -/
namespace FieldRules

/-- Neither name nor index of one child is that of the other. -/
def AreApart (s t : String) : Prop :=
  s ≠ t ∧ ∀ i, Text.natural? s.toList = some i → Text.natural? t.toList ≠ some i

/-- Ways that part at some point, into different children. -/
inductive Diverge : List String → List String → Prop
  | here {s t : String} {p q : List String} (h : AreApart s t) : Diverge (s :: p) (t :: q)
  | later {s : String} {p q : List String} (h : Diverge p q) : Diverge (s :: p) (s :: q)

theorem AreApart.symm {s t : String} (h : AreApart s t) : AreApart t s :=
  ⟨h.1.symm, fun i ht hs => h.2 i hs ht⟩

theorem Diverge.symm {p q : List String} (h : Diverge p q) : Diverge q p := by
  induction h with
  | here h => exact .here h.symm
  | later _ ih => exact .later ih

namespace Value
variable {v w x y : Value} {s t : String} {p q : List String}

theorem of_walk_nil (h : v.walk [] = .ok (some w)) : v = w ∧ w.isNull = false := by
  cases hv : v.isNull with
  | true => simp [hv] at h
  | false =>
    obtain rfl : v = w := by simpa [hv] using h
    exact ⟨rfl, hv⟩

theorem of_walk_cons (h : v.walk (s :: p) = .ok (some w)) :
    ∃ u, v.child? s = .ok (some u) ∧ u.walk p = .ok (some w) := by
  rw [walk_cons] at h
  split at h
  · simp at h
  · simp at h
  · rename_i u hu
    exact ⟨u, hu, h⟩

theorem isNull_eq_false_of_walk (h : v.walk p = .ok (some w)) : w.isNull = false := by
  induction p generalizing v with
  | nil => exact (of_walk_nil h).2
  | cons s p ih =>
    obtain ⟨u, _, hu⟩ := of_walk_cons h
    exact ih hu

theorem child_cases (v : Value) (s : String) :
    (∃ w, v.child? s = .ok (some w)) ∨ ∀ w, v.child? s ≠ .ok (some w) := by
  by_cases h : ∃ w, v.child? s = .ok (some w)
  · exact .inl h
  · exact .inr fun w hw => h ⟨w, hw⟩

theorem child?_setChild_self (h : v.child? s = .ok (some w)) :
    (v.setChild s x).child? s = .ok (some x) := by
  cases v with
  | object es => simp [setChild, child?]
  | list items =>
    simp only [child?] at h
    cases hn : Text.natural? s.toList with
    | none => simp [hn] at h
    | some i =>
      have hi : i < items.length := by
        rw [hn] at h
        exact (List.getElem?_eq_some_iff.1 (Except.ok.inj h)).1
      simp [setChild, child?, hn, hi]
  | _ => simp [child?] at h

theorem setChild_self (h : v.child? s = .ok (some w)) : v.setChild s w = v := by
  cases v with
  | object es =>
    simp only [child?, Except.ok.injEq] at h
    rw [setChild, Entries.put_of_get?_eq_some h]
  | list items =>
    simp only [child?] at h
    cases hn : Text.natural? s.toList with
    | none => simp [hn] at h
    | some i =>
      rw [hn] at h
      obtain ⟨hi, rfl⟩ := List.getElem?_eq_some_iff.1 (Except.ok.inj h)
      simp [setChild, hn]
  | _ => rfl

theorem setChild_setChild (v : Value) (s : String) (x y : Value) :
    (v.setChild s x).setChild s y = v.setChild s y := by
  cases v with
  | object es => simp [setChild, Entries.put_put_self]
  | list items => cases hn : Text.natural? s.toList <;> simp [setChild, hn]
  | _ => rfl

theorem child?_setChild_of_apart (h : AreApart s t) (v x : Value) :
    (v.setChild s x).child? t = v.child? t := by
  cases v with
  | object es => simp [setChild, child?, Entries.get?_put_of_ne h.1]
  | list items =>
    cases hs : Text.natural? s.toList with
    | none => simp [setChild, hs]
    | some i =>
      cases ht : Text.natural? t.toList with
      | none => simp [setChild, child?, hs, ht]
      | some j =>
        have hij : i ≠ j := by
          rintro rfl
          exact h.2 i hs ht
        simp [setChild, child?, hs, ht, List.getElem?_set_ne hij]
  | _ => rfl

theorem setChild_comm (h : AreApart s t) (hs : v.child? s = .ok (some w))
    (ht : v.child? t = .ok (some y)) (a b : Value) :
    (v.setChild s a).setChild t b = (v.setChild t b).setChild s a := by
  cases v with
  | object es =>
    simp only [child?, Except.ok.injEq] at hs ht
    simp only [setChild]
    rw [Entries.put_comm h.1 a b (by simp [hs]) (by simp [ht])]
  | list items =>
    cases hs' : Text.natural? s.toList with
    | none => simp [child?, hs'] at hs
    | some i =>
      cases ht' : Text.natural? t.toList with
      | none => simp [child?, ht'] at ht
      | some j =>
        have hij : i ≠ j := by
          rintro rfl
          exact h.2 i hs' ht'
        simp [setChild, hs', ht', List.set_comm a b hij]
  | _ => rfl

/-- The subject with another value at the end of the way, if `walk` finds one there. -/
def put (v : Value) : List String → Value → Value
  | [], new => if v.isNull then v else new
  | segment :: rest, new =>
    match v.child? segment with
    | .ok (some w) => v.setChild segment (w.put rest new)
    | _ => v

theorem put_nil_of_not_null (h : v.isNull = false) (x : Value) : v.put [] x = x := by
  simp [put, h]

theorem put_cons_of_child (h : v.child? s = .ok (some w)) (p : List String) (x : Value) :
    v.put (s :: p) x = v.setChild s (w.put p x) := by
  simp [put, h]

theorem put_cons_of_no_child (h : ∀ w, v.child? s ≠ .ok (some w)) (p : List String) (x : Value) :
    v.put (s :: p) x = v := by
  rw [put]
  split
  · rename_i w hw
    exact absurd hw (h w)
  · rfl

theorem overwrite_eq (v : Value) (p : List String) (x : Value) :
    v.overwrite p x =
      match v.walk p with
      | .error e => .error e
      | .ok none => .ok none
      | .ok (some _) => .ok (some (v.put p x)) := by
  induction p generalizing v with
  | nil => cases hv : v.isNull <;> simp [overwrite, put, hv]
  | cons s p ih =>
    rw [overwrite, walk_cons]
    cases hc : v.child? s with
    | error e => rfl
    | ok o =>
      cases o with
      | none => rfl
      | some w =>
        simp only [ih w, put_cons_of_child hc]
        cases w.walk p with
        | error e => rfl
        | ok o => cases o <;> rfl

/-- What is found, if anything, is stored again. -/
theorem put_eq_self (h : ∀ w, v.walk p = .ok (some w) → x = w) : v.put p x = v := by
  induction p generalizing v with
  | nil =>
    cases hv : v.isNull with
    | true => simp [put, hv]
    | false =>
      rw [put_nil_of_not_null hv]
      exact h v (by simp [hv])
  | cons s p ih =>
    rcases v.child_cases s with ⟨w, hw⟩ | hn
    · have hw' : w.put p x = w := ih fun u hu => h u (by rw [walk_cons, hw]; exact hu)
      rw [put_cons_of_child hw, hw', setChild_self hw]
    · exact put_cons_of_no_child hn p x

theorem put_of_not_found (h : ∀ w, v.walk p ≠ .ok (some w)) (x : Value) : v.put p x = v :=
  put_eq_self fun w hw => absurd hw (h w)

theorem put_walk (h : v.walk p = .ok (some w)) : v.put p w = v := by
  apply put_eq_self
  intro u hu
  rw [h] at hu
  exact Option.some.inj (Except.ok.inj hu)

theorem store_eq_put (v : Value) (p : FieldPath) (x : Value) :
    v.store p x = v.put p.segments x := by
  rw [store, replace, overwrite_eq]
  cases h : v.walk p.segments with
  | error e =>
    rw [put_of_not_found (fun w hw => by simp [h] at hw)]
    rfl
  | ok o =>
    cases o with
    | none =>
      rw [put_of_not_found (fun w hw => by simp [h] at hw)]
      rfl
    | some w => rfl

theorem walk_put_self (h : v.walk p = .ok (some w)) (hx : x.isNull = false) :
    (v.put p x).walk p = .ok (some x) := by
  induction p generalizing v with
  | nil =>
    obtain ⟨rfl, hv⟩ := of_walk_nil h
    rw [put_nil_of_not_null hv]
    simp [hx]
  | cons s p ih =>
    obtain ⟨u, hu, h⟩ := of_walk_cons h
    rw [put_cons_of_child hu, walk_cons, child?_setChild_self hu]
    exact ih h

theorem put_put (hx : x.isNull = false) (v : Value) (p : List String) (y : Value) :
    (v.put p x).put p y = v.put p y := by
  induction p generalizing v with
  | nil => cases hv : v.isNull <;> simp [put, hv, hx]
  | cons s p ih =>
    rcases v.child_cases s with ⟨w, hw⟩ | hn
    · rw [put_cons_of_child hw, put_cons_of_child hw, put_cons_of_child (child?_setChild_self hw),
        setChild_setChild, ih w]
    · rw [put_cons_of_no_child hn p x]

theorem walk_append (h : v.walk p = .ok (some w)) (q : List String) :
    v.walk (p ++ q) = w.walk q := by
  induction p generalizing v with
  | nil =>
    obtain ⟨rfl, _⟩ := of_walk_nil h
    rfl
  | cons s p ih =>
    obtain ⟨u, hu, h⟩ := of_walk_cons h
    rw [List.cons_append, walk_cons, hu]
    exact ih h

theorem put_append (h : v.walk p = .ok (some w)) (q : List String) (x : Value) :
    v.put (p ++ q) x = v.put p (w.put q x) := by
  induction p generalizing v with
  | nil =>
    obtain ⟨rfl, hv⟩ := of_walk_nil h
    rw [put_nil_of_not_null hv, List.nil_append]
  | cons s p ih =>
    obtain ⟨u, hu, h⟩ := of_walk_cons h
    rw [List.cons_append, put_cons_of_child hu, put_cons_of_child hu, ih h]

/-- What is found on another way is not changed. -/
theorem walk_put_of_diverge (h : Diverge p q) (v x : Value) : (v.put p x).walk q = v.walk q := by
  induction h generalizing v with
  | @here s t p q h =>
    rcases v.child_cases s with ⟨w, hw⟩ | hn
    · rw [put_cons_of_child hw, walk_cons, walk_cons, child?_setChild_of_apart h]
    · rw [put_cons_of_no_child hn]
  | @later s p q h ih =>
    rcases v.child_cases s with ⟨w, hw⟩ | hn
    · rw [put_cons_of_child hw, walk_cons, walk_cons, child?_setChild_self hw, hw]
      exact ih w
    · rw [put_cons_of_no_child hn]

/-- Writes on ways that part can change places. -/
theorem put_comm_of_diverge (h : Diverge p q) (v x y : Value) :
    (v.put p x).put q y = (v.put q y).put p x := by
  induction h generalizing v with
  | @here s t p q h =>
    -- A write below one child leaves the other as it is, there or not.
    rcases v.child_cases s with ⟨w, hw⟩ | hs
    · rcases v.child_cases t with ⟨u, hu⟩ | ht
      · have hu' := (child?_setChild_of_apart h v (w.put p x)).trans hu
        have hw' := (child?_setChild_of_apart h.symm v (u.put q y)).trans hw
        rw [put_cons_of_child hw, put_cons_of_child hu, put_cons_of_child hu',
          put_cons_of_child hw', setChild_comm h hw hu]
      · rw [put_cons_of_no_child ht, put_cons_of_child hw, put_cons_of_no_child]
        simpa only [child?_setChild_of_apart h] using ht
    · rw [put_cons_of_no_child hs]
      rcases v.child_cases t with ⟨u, hu⟩ | ht
      · rw [put_cons_of_child hu, put_cons_of_no_child]
        simpa only [child?_setChild_of_apart h.symm] using hs
      · rw [put_cons_of_no_child ht, put_cons_of_no_child hs]
  | @later s p q h ih =>
    rcases v.child_cases s with ⟨w, hw⟩ | hn
    · rw [put_cons_of_child hw, put_cons_of_child hw, put_cons_of_child (child?_setChild_self hw),
        put_cons_of_child (child?_setChild_self hw), setChild_setChild, setChild_setChild, ih w]
    · rw [put_cons_of_no_child hn, put_cons_of_no_child hn, put_cons_of_no_child hn]

end Value
end FieldRules

import FieldRules.Proofs.Trimming

/-! A check sees nothing of a context but the value at its path and how other paths stand, and
changes nothing but that value, into one with strings trimmed. -/
namespace FieldRules

mutual

/-- Checks by the rule may store trimmed strings in the subject. -/
def Rule.stores : Rule → Bool
  | ⟨_, _, _, _, _, chain⟩ => chainStores chain

def chainStores : List Step → Bool
  | [] => false
  | .stop :: steps => chainStores steps
  | .exclusive _ _ :: steps => chainStores steps
  | .test _ _ :: steps => chainStores steps
  | .trim store :: steps => store || chainStores steps
  | .elements rule :: steps => rule.stores || chainStores steps

end

/-- How every path stands in a subject. -/
abbrev Standing := FieldPath → Except PathError (Option Bool)

def Standing.anySet (σ : Standing) : List FieldPath → Except PathError Bool
  | [] => .ok false
  | p :: ps =>
    match σ p with
    | .error e => .error e
    | .ok (some false) => .ok true
    | .ok _ => σ.anySet ps

theorem Value.anySet_eq (v : Value) (ps : List FieldPath) :
    v.anySet ps = Standing.anySet v.standing ps := by
  induction ps with
  | nil => rfl
  | cons p ps ih =>
    rw [anySet, Standing.anySet, standing]
    cases v.resolve p with
    | error e => rfl
    | ok o =>
      cases o with
      | none => exact ih
      | some w => cases hw : w.isUnset <;> simp [Except.map, hw, ih]

namespace Context

/-- What a check of the path sees of the context. -/
structure Shows (c : Context) (σ : Standing) (path : FieldPath)
    (found : Except Obstacle (Option Value)) : Prop where
  standing : c.subject.standing = σ
  walk : c.subject.walk path.segments = found

theorem store_eq (c : Context) (p : FieldPath) (v : Value) :
    c.store p v = { c with subject := c.subject.put p.segments v } := by
  rw [store, Value.store_eq_put]

theorem store_eq_self {c : Context} {p : FieldPath}
    (h : ∀ w, c.subject.walk p.segments ≠ .ok (some w)) (v : Value) : c.store p v = c := by
  rw [store_eq, Value.put_of_not_found h]

variable {c : Context} {σ : Standing} {path : FieldPath} {u v w : Value}

theorem Shows.store_self (h : c.Shows σ path (.ok (some v))) : c.store path v = c := by
  rw [store_eq, Value.put_walk h.walk]

theorem Shows.store_store (h : c.Shows σ path (.ok (some v))) (hu : u.TrimsTo v)
    (hw : u.TrimsTo w) (x : Value) : (c.store path w).store path x = c.store path x := by
  have hn : w.isNull = false := by rw [hw.isNull, ← hu.isNull, Value.isNull_eq_false_of_walk h.walk]
  simp only [store_eq, Value.put_put hn]

/-- Storing a trimming changes only the value that is seen. -/
theorem Shows.store (h : c.Shows σ path (.ok (some v))) (hu : u.TrimsTo v) (hw : u.TrimsTo w) :
    (c.store path w).Shows σ path (.ok (some w)) := by
  have hn : w.isNull = false := by rw [hw.isNull, ← hu.isNull, Value.isNull_eq_false_of_walk h.walk]
  rw [store_eq]
  exact ⟨(Value.standing_put h.walk hu hw).trans h.standing, Value.walk_put_self h.walk hn⟩

theorem Shows.element (h : c.Shows σ path (.ok (some v))) (i : Nat) :
    (c.withOverride (path.element i)).Shows σ (path.element i) (v.walk [toString i]) :=
  ⟨h.standing, Value.walk_append h.walk [toString i]⟩

theorem Shows.store_element (h : c.Shows σ path (.ok (some v))) (i : Nat) (x : Value) :
    { (c.withOverride (path.element i)).store (path.element i) x with override := c.override } =
      c.store path (v.put [toString i] x) := by
  have hp := Value.put_append h.walk [toString i] x
  rw [store_eq, store_eq, ← hp]
  rfl

end Context

/-- What a check by the rule comes to, and what it leaves at its path, depend on what it sees. -/
def Rule.IsLocal (r : Rule) (σ : Standing) : Prop :=
  ∀ path found, ∃ result x,
    (∀ v, found = .ok (some v) → v.TrimsTo x ∧ (r.stores = false → x = v)) ∧
    ∀ (field : FieldPath) (c : Context), c.override.getD field = path → c.Shows σ path found →
      r.check field c = (result, c.store path x)

/-- Checks of the elements see and change nothing but them. -/
theorem checkEach_local {σ : Standing} {rule : Rule} (hr : rule.IsLocal σ) (path : FieldPath)
    (is : List Nat) (u v : Value) (codes : Codes) (hu : u.TrimsTo v) :
    ∃ result x, u.TrimsTo x ∧ (rule.stores = false → x = v) ∧
      ∀ (field : FieldPath) (c : Context), c.Shows σ path (.ok (some v)) →
        checkEach (fun i c => c.inScope (path.element i) fun c => rule.check field c) is c codes =
          (result, c.store path x) := by
  induction is generalizing v codes with
  | nil => exact ⟨.ok codes, v, hu, fun _ => rfl, fun field c hc => by rw [hc.store_self]; rfl⟩
  | cons i is ih =>
    obtain ⟨result, x, hx, hcheck⟩ := hr (path.element i) (v.walk [toString i])
    have hput : v.TrimsTo (v.put [toString i] x) := Value.trimsTo_put fun w hw => (hx w hw).1
    have hsame : rule.stores = false → v.put [toString i] x = v := fun hs =>
      Value.put_eq_self fun w hw => (hx w hw).2 hs
    have hfirst : ∀ (field : FieldPath) (c : Context), c.Shows σ path (.ok (some v)) →
        (c.inScope (path.element i) fun c => rule.check field c) =
          (result, c.store path (v.put [toString i] x)) := by
      intro field c hc
      rw [Context.inScope, hcheck field _ rfl (hc.element i)]
      exact congrArg (result, ·) (hc.store_element i x)
    cases result with
    | error e =>
      refine ⟨.error e, _, hu.trans hput, hsame, fun field c hc => ?_⟩
      rw [checkEach, hfirst field c hc]
    | ok verdict =>
      obtain ⟨result, y, hy, hys, hrest⟩ :=
        ih (v.put [toString i] x) (codes.addAll verdict.codes.toList) (hu.trans hput)
      refine ⟨result, y, hy, fun hs => (hys hs).trans (hsame hs), fun field c hc => ?_⟩
      rw [checkEach, hfirst field c hc]
      simp only
      rw [hrest field _ (hc.store hu (hu.trans hput)), hc.store_store hu (hu.trans hput)]

mutual

/-- All rules are local, by induction on the rule and the steps of its chain. -/
theorem Rule.isLocal (σ : Standing) : ∀ r : Rule, r.IsLocal σ
  | ⟨kind, code, missing, stopAll, codes, chain⟩, path, found => by
    cases found with
    | error e =>
      refine ⟨.error (.path ⟨path.text, e⟩), .null, by simp, fun field c hp hc => ?_⟩
      subst hp
      rw [Context.store_eq_self (by simp [hc.walk]), Rule.check]
      simp [Value.resolve, hc.walk, Except.mapError]
    | ok o =>
      cases o with
      | none =>
        refine ⟨.ok (.missing missing), .null, by simp, fun field c hp hc => ?_⟩
        subst hp
        rw [Context.store_eq_self (by simp [hc.walk]), Rule.check]
        simp [Value.resolve, hc.walk, Except.mapError]
      | some v =>
        by_cases hk : kind.accepts v = false
        · refine ⟨.error (.wrongKind path.text kind v.shape), v, ?_, fun field c hp hc => ?_⟩
          · rintro w ⟨⟩
            exact ⟨.same v, fun _ => rfl⟩
          · subst hp
            rw [hc.store_self, Rule.check]
            simp [Value.resolve, hc.walk, Except.mapError, hk]
        · by_cases hv : v.isUnset = true
          · refine ⟨.ok (.missing missing), v, ?_, fun field c hp hc => ?_⟩
            · rintro w ⟨⟩
              exact ⟨.same v, fun _ => rfl⟩
            · subst hp
              rw [hc.store_self, Rule.check]
              simp [Value.resolve, hc.walk, Except.mapError, hk, hv]
          · obtain ⟨result, x, hx, hs, hrun⟩ :=
              checkChain_local σ chain path v v v ∅ (.same v) (.inl rfl)
            refine ⟨result.map .present, x, ?_, fun field c hp hc => ?_⟩
            · rintro w ⟨⟩
              exact ⟨hx, hs⟩
            · subst hp
              rw [Rule.check]
              simp only [Value.resolve, hc.walk, Except.mapError, hk, hv, hrun field c hc]
              cases result <;> rfl

/-- The chain began with `u`, and `v` is stored by now. What later steps see is the value that the
chain began with, perhaps trimmed, even if elements have been trimmed in between. -/
theorem checkChain_local (σ : Standing) : ∀ (steps : List Step) (path : FieldPath)
    (u v seen : Value) (codes : Codes), u.TrimsTo v → seen = u ∨ seen = u.trimmed →
    ∃ result x, u.TrimsTo x ∧ (chainStores steps = false → x = v) ∧
      ∀ field c, c.Shows σ path (.ok (some v)) →
        checkChain field path steps ⟨c, seen, codes⟩ = (result, c.store path x)
  | [], path, u, v, seen, codes, hu, hseen =>
    ⟨.ok codes, v, hu, fun _ => rfl, fun field c hc => by rw [hc.store_self, checkChain]⟩
  | .stop :: steps, path, u, v, seen, codes, hu, hseen => by
    obtain ⟨result, x, hx, hs, hrun⟩ := checkChain_local σ steps path u v seen codes hu hseen
    cases he : codes.isEmpty with
    | true =>
      refine ⟨result, x, hx, hs, fun field c hc => ?_⟩
      rw [checkChain, ← hrun field c hc]
      simp [he]
    | false =>
      refine ⟨.ok codes, v, hu, fun _ => rfl, fun field c hc => ?_⟩
      rw [hc.store_self, checkChain]
      simp [he]
  | .exclusive others code :: steps, path, u, v, seen, codes, hu, hseen => by
    cases ha : σ.anySet others with
    | error e =>
      refine ⟨.error (.path e), v, hu, fun _ => rfl, fun field c hc => ?_⟩
      rw [hc.store_self, checkChain]
      simp [Value.anySet_eq, hc.standing, ha]
    | ok set =>
      obtain ⟨result, x, hx, hs, hrun⟩ := checkChain_local σ steps path u v seen
        (if set then codes.add code else codes) hu hseen
      refine ⟨result, x, hx, hs, fun field c hc => ?_⟩
      rw [checkChain, ← hrun field c hc]
      cases set <;> simp [Value.anySet_eq, hc.standing, ha, Progress.raise]
  | .test t code :: steps, path, u, v, seen, codes, hu, hseen => by
    obtain ⟨result, x, hx, hs, hrun⟩ := checkChain_local σ steps path u v seen
      (if t.holds seen then codes else codes.add code) hu hseen
    refine ⟨result, x, hx, hs, fun field c hc => ?_⟩
    rw [checkChain, ← hrun field c hc]
    cases t.holds seen <;> simp [Progress.raise]
  | .trim store :: steps, path, u, v, seen, codes, hu, hseen => by
    have hseen' : seen.trimmed = u.trimmed := by
      rcases hseen with rfl | rfl
      · rfl
      · exact u.trimmed_trimmed
    have ht : u.TrimsTo seen.trimmed := hseen' ▸ .trimmed u
    cases store with
    | true =>
      obtain ⟨result, x, hx, hs, hrun⟩ :=
        checkChain_local σ steps path u seen.trimmed seen.trimmed codes ht (.inr hseen')
      refine ⟨result, x, hx, by simp [chainStores], fun field c hc => ?_⟩
      rw [checkChain, ← hc.store_store hu ht x, ← hrun field _ (hc.store hu ht)]
      simp
    | false =>
      obtain ⟨result, x, hx, hs, hrun⟩ :=
        checkChain_local σ steps path u v seen.trimmed codes hu (.inr hseen')
      refine ⟨result, x, hx, by simpa [chainStores] using hs, fun field c hc => ?_⟩
      rw [checkChain, ← hrun field c hc]
      simp
  | .elements rule :: steps, path, u, v, seen, codes, hu, hseen => by
    obtain ⟨result, x, hx, hs, hrun⟩ := checkEach_local (rule.isLocal σ) path
      (List.range seen.elementCount) u v codes hu
    cases result with
    | error e =>
      refine ⟨.error e, x, hx, fun h => hs ?_, fun field c hc => ?_⟩
      · simp only [chainStores, Bool.or_eq_false_iff] at h
        exact h.1
      · rw [checkChain]
        simp only [hrun field c hc]
    | ok codes' =>
      obtain ⟨result, y, hy, hys, hrest⟩ := checkChain_local σ steps path u x seen codes' hx hseen
      refine ⟨result, y, hy, fun h => ?_, fun field c hc => ?_⟩
      · simp only [chainStores, Bool.or_eq_false_iff] at h
        exact (hys h.2).trans (hs h.1)
      · rw [checkChain]
        simp only [hrun field c hc]
        rw [hrest field _ (hc.store hu hx), hc.store_store hu hx]

end

end FieldRules

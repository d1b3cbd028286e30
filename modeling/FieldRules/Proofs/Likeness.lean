import FieldRules.Proofs.Effects
import FieldRules.Proofs.Nesting

/-! Two runs set against each other. Where subjects are alike in a way that every single look and
write respects, whole checks come to the same and leave subjects that are alike again. -/
namespace FieldRules

/-- The same obstacle, nothing both times, or two values that are related. -/
inductive Corresponds (R : Value → Value → Prop) :
    Except Obstacle (Option Value) → Except Obstacle (Option Value) → Prop
  | error (e : Obstacle) : Corresponds R (.error e) (.error e)
  | none : Corresponds R (.ok none) (.ok none)
  | some {v w : Value} (h : R v w) : Corresponds R (.ok (some v)) (.ok (some w))

theorem Corresponds.imp {R S : Value → Value → Prop} (hrs : ∀ v w, R v w → S v w)
    {x y : Except Obstacle (Option Value)} (h : Corresponds R x y) : Corresponds S x y := by
  cases h with
  | error e => exact .error e
  | none => exact .none
  | some h => exact .some (hrs _ _ h)

theorem Corresponds.of_rel {R : Value → Value → Prop} {x y : Option Value} (h : Option.Rel R x y) :
    Corresponds R (.ok x) (.ok y) := by
  cases h with
  | none => exact .none
  | some h => exact .some h

theorem Corresponds.refl {R : Value → Value → Prop} (hr : ∀ v, R v v)
    (x : Except Obstacle (Option Value)) : Corresponds R x x := by
  cases x with
  | error e => exact .error e
  | ok o =>
    cases o with
    | none => exact .none
    | some v => exact .some (hr v)

/-- Two values that tests cannot tell apart. -/
structure Value.LooksLike (v w : Value) : Prop where
  shape : w.shape = v.shape
  isNull : w.isNull = v.isNull
  isUnset : w.isUnset = v.isUnset
  elementCount : w.elementCount = v.elementCount
  holds : ∀ t : Test, t.holds w = t.holds v

theorem Value.LooksLike.refl (v : Value) : v.LooksLike v := ⟨rfl, rfl, rfl, rfl, fun _ => rfl⟩

theorem Value.looksLike_object (es fs : Entries Value) : (object es).LooksLike (object fs) :=
  ⟨rfl, rfl, rfl, rfl, fun t => by cases t <;> rfl⟩

/-- A way for two subjects to be alike, place by place. -/
structure Likeness where
  /-- The values at the place are alike. -/
  At : List String → Value → Value → Prop
  /-- Checks may look at the place. -/
  Open : List String → Prop
  /-- The second subject may fail in this way while the first one does not. -/
  Excuses : Failure → Value → Prop
  open_of_append : ∀ {p q : List String}, Open (p ++ q) → Open p
  looksLike : ∀ {p : List String} {v w : Value}, At p v w → v.LooksLike w
  trimmed : ∀ {p : List String} {v w : Value}, At p v w → At p v.trimmed w.trimmed
  child? : ∀ {p : List String} {v w : Value} {s : String}, At p v w → Open (p ++ [s]) →
    Corresponds (At (p ++ [s])) (v.child? s) (w.child? s)
  setChild : ∀ {p : List String} {v w x y x' y' : Value} {s : String}, At p v w → Open (p ++ [s]) →
    v.child? s = .ok (some x) → w.child? s = .ok (some y) → At (p ++ [s]) x' y' →
      At p (v.setChild s x') (w.setChild s y')
  element : ∀ {p : List String} {v w : Value} {i : Nat}, At p v w → Open p → i < v.elementCount →
    Open (p ++ [toString i])
  accepts : ∀ {p : FieldPath} {v w : Value} (k : Kind), At p.segments v w →
    k.accepts w = k.accepts v ∨ k.accepts w = false ∧
      ∀ t : Value, t.walk p.segments = .ok (some w) → Excuses (.wrongKind p.text k w.shape) t

namespace Likeness
variable {L : Likeness} {p q : List String} {v w : Value}

/-- By induction on the way: what is alike has children that are alike. -/
theorem walk (h : L.At p v w) (ho : L.Open (p ++ q)) :
    Corresponds (L.At (p ++ q)) (v.walk q) (w.walk q) := by
  induction q generalizing p v w with
  | nil =>
    rw [Value.walk_nil, Value.walk_nil, (L.looksLike h).isNull, List.append_nil]
    cases v.isNull with
    | true => exact .none
    | false => exact .some h
  | cons s q ih =>
    rw [List.append_cons] at ho
    have hc := L.child? h (L.open_of_append ho)
    rw [Value.walk_cons, Value.walk_cons, List.append_cons]
    generalize v.child? s = a at hc
    generalize w.child? s = b at hc
    cases hc with
    | error e => exact .error e
    | none => exact .none
    | some hx => exact ih hx ho

theorem put {x y : Value} (h : L.At p v w) (ho : L.Open (p ++ q)) (hx : L.At (p ++ q) x y) :
    L.At p (v.put q x) (w.put q y) := by
  induction q generalizing p v w with
  | nil =>
    rw [Value.put, Value.put, (L.looksLike h).isNull]
    cases v.isNull with
    | true => exact h
    | false => simpa using hx
  | cons s q ih =>
    rw [List.append_cons] at ho hx
    have hc := L.child? h (L.open_of_append ho)
    rw [Value.put, Value.put]
    generalize ha : v.child? s = a at hc
    generalize hb : w.child? s = b at hc
    cases hc with
    | error e => exact h
    | none => exact h
    | some hxy => exact L.setChild h (L.open_of_append ho) ha hb (ih hxy ho hx)

section
variable {s t : Value}

theorem resolve (h : L.At [] s t) {path : FieldPath} (ho : L.Open path.segments) :
    (∃ e, s.resolve path = .error e ∧ t.resolve path = .error e) ∨
    (s.resolve path = .ok none ∧ t.resolve path = .ok none) ∨
    ∃ v w, s.resolve path = .ok (some v) ∧ t.resolve path = .ok (some w) ∧
      L.At path.segments v w ∧ t.walk path.segments = .ok (some w) := by
  have hw := L.walk h (q := path.segments) ho
  rw [Value.resolve, Value.resolve]
  generalize s.walk path.segments = a at hw
  generalize t.walk path.segments = b at hw
  cases hw with
  | error e => exact .inl ⟨⟨path.text, e⟩, rfl, rfl⟩
  | none => exact .inr (.inl ⟨rfl, rfl⟩)
  | some hvw => exact .inr (.inr ⟨_, _, rfl, rfl, hvw, rfl⟩)

theorem anySet (h : L.At [] s t) {ps : List FieldPath} (ho : ∀ q ∈ ps, L.Open q.segments) :
    t.anySet ps = s.anySet ps := by
  induction ps with
  | nil => rfl
  | cons q ps ih =>
    obtain ⟨hq, ho⟩ := List.forall_mem_cons.1 ho
    rw [Value.anySet, Value.anySet, ih ho]
    obtain ⟨e, hs, ht⟩ | ⟨hs, ht⟩ | ⟨v, w, hs, ht, hvw, _⟩ := L.resolve h hq
    · rw [hs, ht]
    · rw [hs, ht]
    · simp only [hs, ht, (L.looksLike hvw).isUnset]

end

/-- Contexts with subjects that are alike and the same override. -/
structure Like (L : Likeness) (c c' : Context) : Prop where
  subject : L.At [] c.subject c'.subject
  override : c'.override = c.override

theorem Like.store {c c' : Context} (h : L.Like c c') {path : FieldPath}
    (ho : L.Open path.segments) (hvw : L.At path.segments v w) :
    L.Like (c.store path v) (c'.store path w) := by
  rw [Context.store_eq, Context.store_eq]
  exact ⟨L.put h.subject ho hvw, h.override⟩

/-- Two runs come to the same and leave contexts that are alike, or the second one fails in a way
that is excused. -/
inductive Agree (L : Likeness) {α : Type} : Checked α → Checked α → Prop
  | same {result : Except Failure α} {c c' : Context} (h : L.Like c c') :
      Agree L (result, c) (result, c')
  | excused {run : Checked α} {e : Failure} {c' : Context} (h : L.Excuses e c'.subject) :
      Agree L run (.error e, c')

theorem Agree.inScope {α : Type} {run : Context → Checked α} {c c' : Context} {path : FieldPath}
    (hc : c'.override = c.override)
    (h : L.Agree (run (c.withOverride path)) (run (c'.withOverride path))) :
    L.Agree (c.inScope path run) (c'.inScope path run) := by
  rw [Context.inScope, Context.inScope]
  generalize run (c.withOverride path) = x at h
  generalize run (c'.withOverride path) = y at h
  cases h with
  | same h => exact .same ⟨h.subject, hc⟩
  | excused h => exact .excused h

/-- Checks of elements that agree one by one agree altogether. -/
theorem Agree.checkEach {check : Nat → Context → Checked Verdict} {is : List Nat}
    (hcheck : ∀ i ∈ is, ∀ c c', L.Like c c' → L.Agree (check i c) (check i c')) {c c' : Context}
    (h : L.Like c c') (codes : Codes) :
    L.Agree (checkEach check is c codes) (checkEach check is c' codes) := by
  induction is generalizing c c' codes with
  | nil => exact .same h
  | cons i is ih =>
    obtain ⟨hi, hcheck⟩ := List.forall_mem_cons.1 hcheck
    have hfirst := hi c c' h
    rw [FieldRules.checkEach, FieldRules.checkEach]
    generalize check i c = x at hfirst
    generalize check i c' = y at hfirst
    cases hfirst with
    | @same result c₁ c₁' h =>
      cases result with
      | error e => exact .same h
      | ok verdict => exact ih hcheck h _
    | excused h => exact .excused h

/-- Checks by the rule agree, wherever they may look. -/
def Respects (L : Likeness) (r : Rule) : Prop :=
  ∀ (field : FieldPath) (c c' : Context), L.Like c c' →
    L.Open (c.override.getD field).segments → L.Agree (r.check field c) (r.check field c')

/-- Chains agree on values that are alike, by induction on the steps. -/
theorem checkChain {field path : FieldPath} {steps : List Step} (ho : L.Open path.segments)
    (hothers : ∀ others code, .exclusive others code ∈ steps → ∀ q ∈ others, L.Open q.segments)
    (hrules : ∀ e, .elements e ∈ steps → L.Respects e) {c c' : Context} {codes : Codes}
    (h : L.Like c c') (hvw : L.At path.segments v w) :
    L.Agree (checkChain field path steps ⟨c, v, codes⟩)
      (checkChain field path steps ⟨c', w, codes⟩) := by
  induction steps generalizing c c' v w codes with
  | nil =>
    rw [FieldRules.checkChain, FieldRules.checkChain]
    exact .same h
  | cons step steps ih =>
    have hlater : ∀ {c c' : Context} {v w : Value} {codes : Codes}, L.Like c c' →
        L.At path.segments v w → L.Agree (FieldRules.checkChain field path steps ⟨c, v, codes⟩)
          (FieldRules.checkChain field path steps ⟨c', w, codes⟩) :=
      ih (fun others code hm => hothers others code (List.mem_cons_of_mem step hm))
        (fun e hm => hrules e (List.mem_cons_of_mem step hm))
    cases step with
    | stop =>
      rw [FieldRules.checkChain, FieldRules.checkChain]
      split
      · exact hlater h hvw
      · exact .same h
    | exclusive others code =>
      have hset := L.anySet h.subject (hothers others code List.mem_cons_self)
      rw [FieldRules.checkChain, FieldRules.checkChain]
      simp only [hset]
      split
      · exact .same h
      · exact hlater h hvw
      · exact hlater h hvw
    | test t code =>
      rw [FieldRules.checkChain, FieldRules.checkChain]
      simp only [(L.looksLike hvw).holds t]
      split
      · exact hlater h hvw
      · exact hlater h hvw
    | trim store =>
      rw [FieldRules.checkChain, FieldRules.checkChain]
      cases store with
      | true => exact hlater (h.store ho (L.trimmed hvw)) (L.trimmed hvw)
      | false => exact hlater h (L.trimmed hvw)
    | elements rule =>
      have helement : ∀ i ∈ List.range v.elementCount, ∀ c c', L.Like c c' →
          L.Agree (c.inScope (path.element i) fun c => rule.check field c)
            (c'.inScope (path.element i) fun c => rule.check field c) := fun i hi c c' hc =>
        .inScope hc.override (hrules rule List.mem_cons_self field _ _ ⟨hc.subject, rfl⟩
          (L.element hvw ho (List.mem_range.1 hi)))
      have heach := Agree.checkEach helement h codes
      rw [FieldRules.checkChain, FieldRules.checkChain]
      simp only [(L.looksLike hvw).elementCount]
      generalize FieldRules.checkEach _ (List.range v.elementCount) c codes = x at heach
      generalize FieldRules.checkEach _ (List.range v.elementCount) c' codes = y at heach
      cases heach with
      | @same result c₁ c₁' h =>
        cases result with
        | error e => exact .same h
        | ok codes => exact hlater h hvw
      | excused h => exact .excused h

/-- Rules respect a likeness when all fields that they exclude may be looked at. -/
theorem respects {r : Rule} (h : ∀ others code, r.Has (.exclusive others code) →
    ∀ q ∈ others, L.Open q.segments) : L.Respects r := by
  induction r using Rule.nested_induction with
  | rule r ih =>
    intro field c c' hc ho
    have hp : c'.override.getD field = c.override.getD field := by rw [hc.override]
    obtain ⟨e, hs, ht⟩ | ⟨hs, ht⟩ | ⟨v, w, hs, ht, hvw, hw⟩ := L.resolve hc.subject ho
    · rw [Rule.check_of_error hs, Rule.check_of_error (hp.symm ▸ ht)]
      exact .same hc
    · rw [Rule.check_of_none hs, Rule.check_of_none (hp.symm ▸ ht)]
      exact .same hc
    · -- Only here may the runs part: the second value may be refused where the first is not.
      have hlook := L.looksLike hvw
      rw [Rule.check_of_some hs, Rule.check_of_some (hp.symm ▸ ht), hp, hlook.isUnset]
      rcases L.accepts r.kind hvw with hk | ⟨hk, hexcuse⟩
      · rw [hk, hlook.shape]
        split
        · exact .same hc
        · split
          · exact .same hc
          · have hchain : L.Agree
                (FieldRules.checkChain field (c.override.getD field) r.chain ⟨c, v, ∅⟩)
                (FieldRules.checkChain field (c.override.getD field) r.chain ⟨c', w, ∅⟩) :=
              L.checkChain ho (fun others code hm => h others code (.here hm))
                (fun e he => ih e he fun others code hm => h others code (.inside he hm)) hc hvw
            generalize FieldRules.checkChain _ _ _ ⟨c, v, ∅⟩ = x at hchain
            generalize FieldRules.checkChain _ _ _ ⟨c', w, ∅⟩ = y at hchain
            cases hchain with
            | same h => exact .same h
            | excused h => exact .excused h
      · rw [if_pos hk]
        exact .excused (hexcuse _ hw)

/-- Evaluations by rules that respect the likeness agree, whatever has been found before. -/
theorem evaluate (config : RuleSetConfig) {vs : List Validator}
    (hvs : ∀ v ∈ vs, L.Respects v.rule ∧ L.Open v.path.segments) (failed : List String)
    (o : Outcome) {c c' : Context} (h : L.Like c c') (hc : c.override = none) :
    L.Agree (config.evaluate vs failed o c) (config.evaluate vs failed o c') := by
  induction vs generalizing failed o c c' with
  | nil => exact .same h
  | cons v vs ih =>
    obtain ⟨⟨hr, ho⟩, hvs⟩ := List.forall_mem_cons.1 hvs
    have hcheck := hr v.path c c' h (by simpa [hc] using ho)
    have hover := (v.rule.check_effect v.path c).2.1
    rw [RuleSetConfig.evaluate, RuleSetConfig.evaluate]
    split
    · exact ih hvs _ _ h hc
    · split
      · exact ih hvs _ _ h hc
      · simp only [Validator.validate]
        generalize v.rule.check v.path c = x at hcheck hover
        generalize v.rule.check v.path c' = y at hcheck
        cases hcheck with
        | @same result c₁ c₁' h =>
          cases result with
          | error e => exact .same h
          | ok verdict => exact ih hvs _ _ h (hover.trans hc)
        | excused h => exact .excused h

end Likeness
end FieldRules

import FieldRules.Proofs.Nesting
import FieldRules.RuleSet.Evaluate

/-! What checking does to a subject: strings in it are trimmed where a clause asks for that, and
nothing else happens, whether the check comes to a verdict or fails. -/
namespace FieldRules

/-- Trimmed strings are to be stored. -/
def AsksToStore (texts : List String) : Prop :=
  ∃ c : Clause, c.IsIn texts ∧ c.code = Operation.storeTrimmed.code

namespace Builder
variable {b : Builder} {texts : List String}

/-- Trimmed strings are to be stored by the clauses or by a shared rule that they reach. -/
def Stores (b : Builder) (texts : List String) : Prop :=
  AsksToStore texts ∨
    ∃ name shared, b.Reaches texts name ∧ b.shared.get? name = some shared ∧ AsksToStore shared

/-- Clauses that neither store nor refer to a shared rule. -/
theorem not_stores_of_codes (h : ∀ text ∈ texts,
    Clause.codeOf text ∉ [Operation.storeTrimmed.code, Operation.elements.code]) :
    ¬ b.Stores texts := by
  have hcode : ∀ c : Clause, c.IsIn texts →
      c.code ≠ Operation.storeTrimmed.code ∧ c.code ≠ Operation.elements.code := by
    rintro c ⟨field, text, ht, hp⟩
    have := h text ht
    rw [← Clause.code_of_parse hp] at this
    simpa using this
  have href : ∀ {name}, ¬ RefersTo texts name := fun ⟨c, hc, he, _⟩ => (hcode c hc).2 he
  have hreach : ∀ {name}, ¬ b.Reaches texts name := by
    intro name hr
    induction hr with
    | first hr => exact href hr
    | next _ _ _ ih => exact ih
  rintro (⟨c, hc, he⟩ | ⟨name, shared, hr, _⟩)
  · exact (hcode c hc).1 he
  · exact hreach hr

end Builder

theorem chainStores_iff {steps : List Step} :
    chainStores steps = true ↔
      .trim true ∈ steps ∨ ∃ rule, .elements rule ∈ steps ∧ rule.stores = true := by
  induction steps with
  | nil => simp [chainStores]
  | cons s steps ih =>
    cases s with
    | trim store => cases store <;> simp [chainStores, ih]
    | elements rule =>
      simp only [chainStores, Bool.or_eq_true, ih, List.mem_cons, reduceCtorEq, false_or,
        Step.elements.injEq]
      constructor
      · rintro (h | h | ⟨r, hr, h⟩)
        · exact .inr ⟨rule, .inl rfl, h⟩
        · exact .inl h
        · exact .inr ⟨r, .inr hr, h⟩
      · rintro (h | ⟨r, rfl | hr, h⟩)
        · exact .inr (.inl h)
        · exact .inl h
        · exact .inr (.inr ⟨r, hr, h⟩)
    | _ => simp [chainStores, ih]

/-- A rule that stores has a step for it, in its own chain or in that of a rule within. -/
theorem Rule.has_of_stores {r : Rule} (h : r.stores = true) : r.Has (.trim true) := by
  induction r using Rule.nested_induction with
  | rule r ih =>
    have hchain : chainStores r.chain = true := by
      cases r
      rwa [Rule.stores] at h
    rcases chainStores_iff.1 hchain with hs | ⟨e, he, hs⟩
    · exact .here hs
    · exact .inside he (ih e he hs)

theorem Builder.of_build_stores {b : Builder} {field : String} {kind? : Option Kind}
    {texts : List String} {v : Validator} (h : b.build kind? field texts = .ok v)
    (hs : v.rule.stores = true) : b.Stores texts := by
  obtain ⟨c, sc, hc, hr⟩ := (makes_of_build h).exists_inReach (Rule.has_of_stores hs)
  cases hr with
  | storeTrimmed hcode =>
    rcases hc with hc | ⟨name, shared, hreach, hshared, hc⟩
    · exact .inl ⟨c, hc, hcode⟩
    · exact .inr ⟨name, shared, hreach, hshared, c, hc, hcode⟩

/-- A check leaves the context as it is, up to strings that are trimmed in the subject. -/
theorem Rule.check_effect (r : Rule) (field : FieldPath) (c : Context) :
    c.subject.TrimsTo (r.check field c).2.subject ∧ (r.check field c).2.override = c.override ∧
      (r.stores = false → (r.check field c).2 = c) := by
  obtain ⟨result, x, hx, hrun⟩ := r.isLocal c.subject.standing (c.override.getD field)
    (c.subject.walk (c.override.getD field).segments)
  have hc := hrun field c rfl ⟨rfl, rfl⟩
  rw [hc, Context.store_eq]
  refine ⟨Value.trimsTo_put fun w hw => (hx w hw).1, rfl, fun hs => ?_⟩
  rw [Value.put_eq_self fun w hw => (hx w hw).2 hs]

theorem RuleSetConfig.evaluate_effect (config : RuleSetConfig) (vs : List Validator)
    (failed : List String) (o : Outcome) (c : Context) :
    c.subject.TrimsTo (config.evaluate vs failed o c).2.subject ∧
      ((∀ v ∈ vs, v.rule.stores = false) → (config.evaluate vs failed o c).2 = c) := by
  induction vs generalizing failed o c with
  | nil => exact ⟨.same _, fun _ => rfl⟩
  | cons v vs ih =>
    have hskip : ∀ failed o, c.subject.TrimsTo (config.evaluate vs failed o c).2.subject ∧
        ((∀ w ∈ v :: vs, w.rule.stores = false) → (config.evaluate vs failed o c).2 = c) :=
      fun failed o => ⟨(ih failed o c).1, fun h => (ih failed o c).2 fun w hw => h w (by simp [hw])⟩
    rw [RuleSetConfig.evaluate]
    split
    · exact hskip _ _
    · split
      · exact hskip _ _
      · obtain ⟨ht, _, hs⟩ := v.rule.check_effect v.path c
        cases hv : v.validate c with
        | mk result c₁ =>
          rw [show v.rule.check v.path c = (result, c₁) from hv] at ht hs
          cases result with
          | error e => exact ⟨ht, fun h => hs (h v (by simp))⟩
          | ok verdict =>
            obtain ⟨ht', hs'⟩ := ih (if verdict.isValid then failed else v.field :: failed)
              (o.record v verdict) c₁
            refine ⟨ht.trans ht', fun h => ?_⟩
            rw [hs' fun w hw => h w (by simp [hw])]
            exact hs (h v (by simp))

theorem RuleSet.validate_effect (rs : RuleSet) (subject : Value) :
    subject.TrimsTo (rs.validate subject).2 ∧
      ((∀ v ∈ rs.validators, v.rule.stores = false) → (rs.validate subject).2 = subject) := by
  obtain ⟨ht, hs⟩ := rs.config.evaluate_effect rs.validators [] {} { subject := subject }
  exact ⟨ht, fun h => congrArg Context.subject (hs h)⟩

/-- Whether a check comes to a verdict or fails, it only trims strings. Every path stands as before,
the override is the same, and if no clause that is reached asks to store, so is the subject. The
like holds of rule sets. -/
theorem validate_effects :
    (∀ (b : Builder) (kind? : Option Kind) (field : String) (texts : List String) (v : Validator),
      b.build kind? field texts = .ok v → ∀ c : Context,
        c.subject.TrimsTo (v.validate c).2.subject ∧
        (∀ p, (v.validate c).2.subject.standing p = c.subject.standing p) ∧
        (v.validate c).2.override = c.override ∧
        (¬ b.Stores texts → (v.validate c).2.subject = c.subject)) ∧
    (∀ (rs : RuleSet) (subject : Value),
      subject.TrimsTo (rs.validate subject).2 ∧
      (∀ p, (rs.validate subject).2.standing p = subject.standing p) ∧
      ((∀ v ∈ rs.validators, ∃ (b : Builder) (kind? : Option Kind) (field : String)
          (texts : List String), b.build kind? field texts = .ok v ∧ ¬ b.Stores texts) →
        (rs.validate subject).2 = subject)) := by
  have hstores : ∀ {b : Builder} {kind? : Option Kind} {field : String} {texts : List String}
      {v : Validator}, b.build kind? field texts = .ok v → ¬ b.Stores texts →
      v.rule.stores = false := by
    intro b kind? field texts v h hn
    by_contra hs
    exact hn (Builder.of_build_stores h (by simpa using hs))
  refine ⟨fun b kind? field texts v h c => ?_, fun rs subject => ?_⟩
  · obtain ⟨ht, ho, hs⟩ := v.rule.check_effect v.path c
    refine ⟨ht, fun p => congrFun ht.standing p, ho, fun hn => ?_⟩
    exact congrArg Context.subject (hs (hstores h hn))
  · obtain ⟨ht, hs⟩ := rs.validate_effect subject
    refine ⟨ht, fun p => congrFun ht.standing p, fun h => hs fun v hv => ?_⟩
    obtain ⟨b, kind?, field, texts, hb, hn⟩ := h v hv
    exact hstores hb hn

/-- A list that fails at its second element is left with the first one trimmed. A trimmed string
that is not to be stored leaves no trace. -/
theorem half_trimmed_list :
    let b : Builder := { shared := [("tag", ["STR", "HARDTRIM"])] }
    let c : Context := ⟨.object [("tags", .list [.scalar (.string " a"), .scalar (.int 3)])], none⟩
    (∃ v, b.build none "tags" ["SLICE", "ELEM:tag"] = .ok v ∧
      (v.validate c).1 = .error (.wrongKind "tags.1" .string (.scalar .int)) ∧
      (v.validate c).2.subject.same
        (.object [("tags", .list [.scalar (.string "a"), .scalar (.int 3)])]) = true ∧
      c.subject.TrimsTo (v.validate c).2.subject ∧
      (∀ p, (v.validate c).2.subject.standing p = c.subject.standing p) ∧
      (v.validate c).2.override = c.override) ∧
    ∃ v, b.build none "tags.0" ["STR", "TRIM"] = .ok v ∧ ¬ b.Stores ["STR", "TRIM"] ∧
      (v.validate c).2.subject = c.subject ∧
      (RuleSet.validate ⟨[v], {}⟩ c.subject).2 = c.subject := by
  intro b c
  refine ⟨?_, ?_⟩
  · have hrun : (b.build none "tags" ["SLICE", "ELEM:tag"]).toOption.map (fun v =>
        (v.validate c).1) = some (.error (.wrongKind "tags.1" .string (.scalar .int))) := by
      decide +kernel
    have hsubject : (b.build none "tags" ["SLICE", "ELEM:tag"]).toOption.map (fun v =>
        (v.validate c).2.subject.same
          (.object [("tags", .list [.scalar (.string "a"), .scalar (.int 3)])])) = some true := by
      decide +kernel
    cases hv : b.build none "tags" ["SLICE", "ELEM:tag"] with
    | error e => simp [hv, Except.toOption] at hrun
    | ok v =>
      rw [hv] at hrun hsubject
      obtain ⟨ht, hp, ho, _⟩ := validate_effects.1 b none "tags" _ v hv c
      exact ⟨v, rfl, by simpa [Except.toOption] using hrun,
        by simpa [Except.toOption] using hsubject, ht, hp, ho⟩
  · have hbuilt : (b.build none "tags.0" ["STR", "TRIM"]).isOk = true := by decide +kernel
    have hn : ¬ b.Stores ["STR", "TRIM"] := Builder.not_stores_of_codes (by decide +kernel)
    cases hv : b.build none "tags.0" ["STR", "TRIM"] with
    | error e => simp [hv, Except.isOk, Except.toBool] at hbuilt
    | ok v =>
      refine ⟨v, rfl, hn, (validate_effects.1 b none "tags.0" _ v hv c).2.2.2 hn, ?_⟩
      refine (validate_effects.2 ⟨[v], {}⟩ c.subject).2.2 fun w hw => ?_
      obtain rfl := List.mem_singleton.1 hw
      exact ⟨b, none, "tags.0", _, hv, hn⟩

end FieldRules

import FieldRules.Proofs.DotPrefix
import FieldRules.Proofs.Nesting
import FieldRules.Proofs.Runs

/-! The codes of a rule are all that its checks can raise, and those of a rule set are all that can
stand in its outcomes. -/
namespace FieldRules

namespace Codes

@[simp] theorem mem_add {cs : Codes} {c x : String} :
    x ∈ (cs.add c).toList ↔ x ∈ cs.toList ∨ x = c := by
  rw [toList_add]
  split
  · constructor
    · exact .inl
    · rintro (h | rfl)
      · exact h
      · assumption
  · simp

@[simp] theorem mem_addAll {cs : Codes} {new : List String} {x : String} :
    x ∈ (cs.addAll new).toList ↔ x ∈ cs.toList ∨ x ∈ new := by
  induction new generalizing cs with
  | nil => simp
  | cons c new ih => rw [addAll_cons, ih, mem_add, List.mem_cons, or_assoc]

@[simp] theorem mem_ofList {cs : List String} {x : String} : x ∈ (ofList cs).toList ↔ x ∈ cs := by
  rw [ofList, mem_addAll]
  simp [empty]

end Codes

/-- Checks by the rule raise its own codes only. -/
def Rule.RaisesOwn (r : Rule) : Prop :=
  ∀ field c verdict c', r.check field c = (.ok verdict, c') →
    ∀ x ∈ verdict.codes.toList, x ∈ r.codes.toList

/-- What checks of elements raise was raised before or by one of them. -/
theorem mem_of_checkEach {check : Nat → Context → Checked Verdict} {own : List String}
    (hcheck : ∀ i c verdict c', check i c = (.ok verdict, c') → ∀ x ∈ verdict.codes.toList, x ∈ own)
    {is : List Nat} {c c' : Context} {codes codes' : Codes}
    (h : checkEach check is c codes = (.ok codes', c')) {x : String} (hx : x ∈ codes'.toList) :
    x ∈ codes.toList ∨ x ∈ own := by
  induction is generalizing c codes with
  | nil =>
    obtain ⟨rfl, rfl⟩ := by simpa [checkEach] using h
    exact .inl hx
  | cons i is ih =>
    rw [checkEach] at h
    split at h
    · simp at h
    · rename_i verdict c₁ hi
      rcases ih h with hx | hx
      · rcases Codes.mem_addAll.1 hx with hx | hx
        · exact .inl hx
        · exact .inr (hcheck _ _ _ _ hi x hx)
      · exact .inr hx

/-- What a chain raises was raised before or is a code of one of its steps. -/
theorem mem_of_checkChain {field path : FieldPath} {steps : List Step}
    (hr : ∀ e, .elements e ∈ steps → e.RaisesOwn) {p : Progress} {codes : Codes} {c : Context}
    (h : checkChain field path steps p = (.ok codes, c)) {x : String} (hx : x ∈ codes.toList) :
    x ∈ p.codes.toList ∨ ∃ s ∈ steps, x ∈ s.codes := by
  induction steps generalizing p with
  | nil =>
    obtain ⟨rfl, rfl⟩ := by simpa [checkChain] using h
    exact .inl hx
  | cons s steps ih =>
    -- A step goes on with the codes from before it and its own.
    have later : ∀ {p' : Progress}, (∀ y ∈ p'.codes.toList, y ∈ p.codes.toList ∨ y ∈ s.codes) →
        checkChain field path steps p' = (.ok codes, c) →
        x ∈ p.codes.toList ∨ ∃ s' ∈ s :: steps, x ∈ s'.codes := by
      intro p' hp h
      rcases ih (fun e he => hr e (List.mem_cons_of_mem s he)) h with hx | ⟨s', hs, hx⟩
      · rcases hp x hx with hx | hx
        · exact .inl hx
        · exact .inr ⟨s, List.mem_cons_self, hx⟩
      · exact .inr ⟨s', List.mem_cons_of_mem s hs, hx⟩
    cases s with
    | stop =>
      rw [checkChain] at h
      split at h
      · exact later (fun y hy => .inl hy) h
      · obtain ⟨rfl, rfl⟩ := by simpa using h
        exact .inl hx
    | exclusive others code =>
      rw [checkChain] at h
      split at h
      · simp at h
      · exact later (fun y hy => by simpa [Progress.raise, Step.codes] using hy) h
      · exact later (fun y hy => .inl hy) h
    | test t code =>
      rw [checkChain] at h
      refine later (fun y hy => ?_) h
      split at hy
      · exact .inl hy
      · simpa [Progress.raise, Step.codes] using hy
    | trim store =>
      rw [checkChain] at h
      refine later ?_ h
      exact fun y hy => .inl hy
    | elements rule =>
      rw [checkChain] at h
      split at h
      · rename_i codes₁ c₁ heach
        refine later (fun y hy => mem_of_checkEach ?_ heach hy) h
        intro i c₂ verdict c₃ hi
        rw [Context.inScope] at hi
        exact hr rule List.mem_cons_self _ _ verdict _ (Prod.ext (Prod.mk.inj hi).1 rfl)
      · simp at h

namespace Rule

/-- The codes of a rule are its default one and those of the parts that it is made of. -/
theorem codes_ofParts_subset {kind : Kind} {code : String} {parts : List Part} {p : Part}
    (hp : p ∈ parts) : p.codes ⊆ (ofParts kind code parts).codes.toList := by
  intro x hx
  rw [ofParts, Codes.mem_ofList]
  exact List.mem_cons_of_mem _ (List.mem_flatMap.2 ⟨p, hp, hx⟩)

theorem mem_codes_ofParts_of_missing {kind : Kind} {code x : String} {parts : List Part}
    (h : (ofParts kind code parts).missing = some x) : x ∈ (ofParts kind code parts).codes.toList := by
  obtain ⟨p, hp, hx⟩ := List.mem_filterMap.1 (List.mem_of_getLast? h)
  refine codes_ofParts_subset hp ?_
  cases p <;> simp_all [Part.missing?, Part.codes]

end Rule

/-- By induction on the rules within: an element rule's codes are codes of its step. -/
theorem Builder.Makes.raisesOwn {b : Builder} {texts : List String} {r : Rule}
    (h : b.Makes texts r) : r.RaisesOwn := by
  induction r using Rule.nested_induction generalizing texts with
  | rule r ih =>
    have hr : ∀ e, .elements e ∈ r.chain → e.RaisesOwn := by
      intro e he
      obtain ⟨_, shared, _, _, hm⟩ := h.exists_shared he
      exact ih e he hm
    obtain ⟨field, kind?, h⟩ := h
    obtain ⟨clauses, kind, parts, _, _, _, rfl⟩ := of_compile_eq_ok h
    intro field c verdict c' hv x hx
    rcases Rule.of_check_eq_ok hv with rfl | ⟨v, codes, hc, rfl⟩
    · apply Rule.mem_codes_ofParts_of_missing
      simpa [Verdict.missing] using hx
    · rcases mem_of_checkChain hr hc hx with hx | ⟨s, hs, hx⟩
      · simp at hx
      · exact Rule.codes_ofParts_subset (Rule.mem_chain_ofParts.1 hs) hx

theorem Validator.IsBuilt.raisesOwn {v : Validator} (h : v.IsBuilt) : v.rule.RaisesOwn := by
  obtain ⟨b, kind?, field, texts, h⟩ := h
  exact (Builder.makes_of_build h).raisesOwn

namespace Entries
variable {α : Type}

theorem mem_put {key : String} {v : α} {es : Entries α} {e : String × α} (h : e ∈ put key v es) :
    e = (key, v) ∨ e ∈ es := by
  induction es with
  | nil => exact .inl (by simpa [put] using h)
  | cons f es ih =>
    rw [put] at h
    split at h
    · rename_i hk
      rcases List.mem_cons.1 h with rfl | h
      · exact .inl (by rw [hk])
      · exact .inr (List.mem_cons_of_mem f h)
    · rcases List.mem_cons.1 h with rfl | h
      · exact .inr List.mem_cons_self
      · rcases ih h with h | h
        · exact .inl h
        · exact .inr (List.mem_cons_of_mem f h)

end Entries

/-- Every result was recorded before, or is the verdict of one of the validators. -/
theorem Outcome.mem_results_recordAll {o : Outcome} {ds : List (Validator × Verdict)}
    {e : String × Verdict} (h : e ∈ (o.recordAll ds).results) :
    e ∈ o.results ∨ ∃ d ∈ ds, d.2 = e.2 := by
  induction ds generalizing o with
  | nil => exact .inl h
  | cons d ds ih =>
    rw [recordAll_cons] at h
    rcases ih h with h | ⟨d', hd', he⟩
    · rw [results_record] at h
      rcases Entries.mem_put h with rfl | h
      · exact .inr ⟨d, List.mem_cons_self, rfl⟩
      · exact .inl h
    · exact .inr ⟨d', List.mem_cons_of_mem d hd', he⟩

theorem Completes.exists_validate {vs : List Validator} {c c' : Context}
    {ds : List (Validator × Verdict)} (h : Completes vs c ds c') {d : Validator × Verdict}
    (hd : d ∈ ds) : ∃ c₁ c₂, d.1.validate c₁ = (.ok d.2, c₂) := by
  induction h with
  | nil => simp at hd
  | cons hv _ ih =>
    rcases List.mem_cons.1 hd with rfl | hd
    · exact ⟨_, _, hv⟩
    · exact ih hd

/-- Whatever is evaluated, every result raises codes of a validator. -/
theorem RuleSetConfig.exists_mem_codes {config : RuleSetConfig} {vs : List Validator}
    (hb : ∀ v ∈ vs, v.IsBuilt) {failed : List String} {o : Outcome} {c c' : Context}
    (h : config.evaluate vs failed {} c = (.ok o, c')) {e : String × Verdict} (he : e ∈ o.results)
    {x : String} (hx : x ∈ e.2.codes.toList) : ∃ v ∈ vs, x ∈ v.rule.codes.toList := by
  obtain ⟨ds, skipped, hrun, hsub, _, rfl⟩ := exists_completes h
  rcases Outcome.mem_results_recordAll he with he | ⟨d, hd, hde⟩
  · simp at he
  · obtain ⟨c₁, c₂, hv⟩ := hrun.exists_validate hd
    have hmem : d.1 ∈ vs := hsub.subset (List.mem_map_of_mem hd)
    exact ⟨d.1, hmem, (hb d.1 hmem).raisesOwn _ _ _ _ hv x (hde ▸ hx)⟩

/-- Every code in a verdict is one of the rule's, for all kinds and through all rules for elements,
and every code in an outcome, under all policies, is one of the rule set's. -/
theorem validate_raises_codes :
    (∀ v : Validator, v.IsBuilt → ∀ (c c' : Context) (verdict : Verdict),
      v.validate c = (.ok verdict, c') → verdict.codes.toList ⊆ v.rule.codes.toList) ∧
    (∀ rs : RuleSet, (∀ v ∈ rs.validators, v.IsBuilt) → ∀ (subject subject' : Value) (o : Outcome),
      rs.validate subject = (.ok o, subject') →
        ∀ e ∈ o.results, e.2.codes.toList ⊆ rs.codes.toList) := by
  refine ⟨fun v hb c c' verdict h x hx => hb.raisesOwn _ _ _ _ h x hx, ?_⟩
  intro rs hb subject subject' o h e he x hx
  obtain ⟨c', hrun, _⟩ := RuleSet.validate_eq_iff.1 h
  obtain ⟨v, hv, hxv⟩ := RuleSetConfig.exists_mem_codes hb hrun he hx
  rw [RuleSet.codes, Codes.mem_ofList]
  exact List.mem_flatMap.2 ⟨v, hv, hxv⟩

/-- A list with too many tags, one of them too long, raises its own codes and that of the tags. -/
theorem long_tag_raises_codes :
    let b : Builder := { shared := [("tag", ["STR", "LEN:1-2:LONG"])] }
    let subject : Value := .object [("tags", .list [.scalar (.string "a"), .scalar (.string "abc")]),
      ("label", .scalar (.string "x"))]
    ∃ v, b.build none "tags" ["SLICE:BAD", "LEN:1-1:MANY", "MEX:label", "ELEM:tag"] = .ok v ∧
      (v.validate { subject := subject }).1 = .ok (.present (Codes.ofList ["MANY", "BAD", "LONG"])) ∧
      (Codes.ofList ["MANY", "BAD", "LONG"]).toList ⊆ v.rule.codes.toList ∧
      ∃ o subject', RuleSet.validate ⟨[v], {}⟩ subject = (.ok o, subject') ∧ o.isValid = false ∧
        ∀ e ∈ o.results, e.2.codes.toList ⊆ (RuleSet.codes ⟨[v], {}⟩).toList := by
  intro b subject
  have hrun : (b.build none "tags"
      ["SLICE:BAD", "LEN:1-1:MANY", "MEX:label", "ELEM:tag"]).toOption.map (fun v =>
        ((v.validate { subject := subject }).1,
          (RuleSet.validate ⟨[v], {}⟩ subject).1.toOption.map Outcome.isValid)) =
      some (.ok (.present (Codes.ofList ["MANY", "BAD", "LONG"])), some false) := by decide +kernel
  obtain ⟨v, hv, hrun⟩ := exists_of_toOption_map hrun
  obtain ⟨hverdict, houtcome⟩ := Prod.mk.inj hrun
  have hb : v.IsBuilt := ⟨b, none, "tags", _, hv⟩
  obtain ⟨o, subject', ho, hvalid⟩ := RuleSet.exists_outcome ⟨[v], {}⟩ subject _ _ houtcome
  refine ⟨v, hv, hverdict, ?_, o, subject', ho, hvalid, ?_⟩
  · exact validate_raises_codes.1 v hb _ _ _ (Prod.ext hverdict rfl)
  · exact validate_raises_codes.2 ⟨[v], {}⟩ (by simpa using hb) subject subject' o ho

end FieldRules

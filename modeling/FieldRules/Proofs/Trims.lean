import FieldRules.Proofs.Clausewise
import FieldRules.Proofs.Strings

/-! Trims that store what they trim, and trims that do not. Which of them stands in a chain makes a
difference to the subject that is left, but not to what a check comes to. -/
namespace FieldRules

namespace Step

/-- The second step is the first one, but if that trims, it need not store what it has trimmed. -/
inductive Softens : Step → Step → Prop
  | same (s : Step) : Softens s s
  | trim : Softens (.trim true) (.trim false)

namespace Softens
variable {s s' : Step} (h : Softens s s')
include h

theorem isTrim : s'.isTrim = s.isTrim := by cases h <;> rfl
theorem anySet (subject : Value) : s'.anySet subject = s.anySet subject := by cases h <;> rfl
theorem raises? (subject : Value) (seen : String) :
    s'.raises? subject seen = s.raises? subject seen := by cases h <;> rfl
theorem eq_stop_iff : s' = .stop ↔ s = .stop := by cases h <;> simp

end Softens
end Step

section
variable {c : Context} {field path : FieldPath} {found : Value} {x : String}
  {steps before : List Step} (hwalk : c.subject.walk path.segments = .ok (some found))
  (hx : found.string? = some x)
include hwalk hx

/-- What a chain comes to does not depend on which of its trims are stored. -/
theorem checkChain_softens {steps' before' : List Step} (h : List.Forall₂ Step.Softens steps steps')
    (htrim : before'.any Step.isTrim = before.any Step.isTrim)
    (hfailing : failing c.subject x before' = failing c.subject x before) :
    (checkChain field path steps' (standBehind c path found x before')).1 =
      (checkChain field path steps (standBehind c path found x before)).1 := by
  have hcodes : (standBehind c path found x before').codes =
      (standBehind c path found x before).codes := congrArg Codes.ofList hfailing
  -- The chains stand alike but for the context, and no step tells the contexts apart.
  induction h generalizing before before' with
  | nil => exact congrArg Except.ok hcodes
  | @cons s s' steps steps' hs _ ih =>
    rw [checkChain_cons, checkChain_cons]
    by_cases hends : s = .stop ∧ failing c.subject x before ≠ []
    · obtain ⟨rfl, hfails⟩ := hends
      obtain rfl := hs.eq_stop_iff.2 rfl
      rw [take_stop_of_failing hfails, take_stop_of_failing (by rwa [hfailing])]
      exact congrArg Except.ok hcodes
    · have hgoesOn : s = .stop → failing c.subject x before = [] := fun h => by
        simpa using not_and.1 hends h
      have hgoesOn' : s' = .stop → failing c.subject x before' = [] := fun h => by
        rw [hfailing]
        exact hgoesOn (hs.eq_stop_iff.1 h)
      rw [take_standBehind hwalk hx hgoesOn, take_standBehind hwalk hx hgoesOn', hs.anySet]
      cases s.anySet c.subject with
      | error e => rfl
      | ok set =>
        have htrim' : (before' ++ [s']).any Step.isTrim = (before ++ [s]).any Step.isTrim := by
          simp [htrim, hs.isTrim]
        have hseen : seenBehind before' x = seenBehind before x := by
          rw [seenBehind, seenBehind, htrim]
        have hfailing' : failing c.subject x (before' ++ [s']) =
            failing c.subject x (before ++ [s]) := by
          rw [failing_concat, failing_concat, hfailing, hseen, hs.raises?]
        exact ih htrim' hfailing' (congrArg Codes.ofList hfailing')

end

theorem Rule.check_softens {r r' : Rule} (hkind : r.kind = .string) (hkind' : r'.kind = .string)
    (hm : r'.missing = r.missing) (hchain : List.Forall₂ Step.Softens r.chain r'.chain)
    (field : FieldPath) (c : Context) : (r'.check field c).1 = (r.check field c).1 := by
  by_cases h : ∃ found x, c.subject.resolve (c.override.getD field) = .ok (some found) ∧
      found.string? = some x
  · obtain ⟨found, x, hfound, hx⟩ := h
    have hrun : (checkChain field _ r'.chain (standBehind c _ found x [])).1 =
        (checkChain field _ r.chain (standBehind c _ found x [])).1 :=
      checkChain_softens (Value.walk_of_resolve hfound) hx hchain rfl rfl
    rw [check_of_string hkind hfound hx, check_of_string hkind' hfound hx]
    exact congrArg (Except.map Verdict.present) hrun
  · obtain ⟨result, hresult⟩ := exists_check_of_no_string field c r.missing
      fun found x hfound hx => h ⟨found, x, hfound, hx⟩
    rw [hresult r hkind rfl, hresult r' hkind' hm]

section
variable {ε α β : Type} {as as' : List α}

theorem filterMap_eq_of_forall₂ {f : α → Option β}
    (h : List.Forall₂ (fun a a' => f a' = f a) as as') : as'.filterMap f = as.filterMap f := by
  induction h with
  | nil => rfl
  | cons ha _ ih => rw [List.filterMap_cons, List.filterMap_cons, ha, ih]

theorem exists_mapM_of_forall₂ {R : α → α → Prop} {T : β → β → Prop} {f : α → Except ε β}
    {bs : List β} (h : List.Forall₂ R as as') (hbs : as.mapM f = .ok bs)
    (hf : ∀ a a' b, R a a' → f a = .ok b → ∃ b', f a' = .ok b' ∧ T b b') :
    ∃ bs', as'.mapM f = .ok bs' ∧ List.Forall₂ T bs bs' := by
  simp only [mapM_eq_ok_iff] at hbs ⊢
  induction h generalizing bs with
  | nil =>
    cases hbs
    exact ⟨[], .nil, .nil⟩
  | cons ha _ ih =>
    cases hbs with
    | cons hb hbs =>
      obtain ⟨b', hb', ht⟩ := hf _ _ _ ha hb
      obtain ⟨bs', hbs', hts⟩ := ih hbs
      exact ⟨b' :: bs', .cons hb' hbs', .cons ht hts⟩

end

/-- The clause is the same, but if it stores a trimmed string, it may be one that only trims. -/
def Clause.Softens (text text' : String) : Prop :=
  text' = text ∨ codeOf text = Operation.storeTrimmed.code ∧ text' = Operation.trim.code

theorem Clause.ofText_trim : ofText Operation.trim.code = ⟨Operation.trim.code, [], "TRIM"⟩ := rfl

namespace Clause.Softens
variable {text text' : String} (h : Softens text text')
include h

theorem ofCode?_code : Kind.ofCode? (codeOf text') = Kind.ofCode? (codeOf text) := by
  rcases h with rfl | ⟨hcode, rfl⟩
  · rfl
  · rw [hcode, ← code_ofText, ofText_trim, Kind.ofCode?_code_of_operation,
      Kind.ofCode?_code_of_operation]

theorem code_ne_nil (ht : codeOf text ≠ "") : codeOf text' ≠ "" := by
  rcases h with rfl | ⟨_, rfl⟩
  · exact ht
  · rw [← code_ofText, ofText_trim]
    decide

theorem guard_declares (k : Kind) : Option.guard (·.declares k) (ofText text') =
    Option.guard (·.declares k) (ofText text) := by
  rcases h with rfl | ⟨hcode, rfl⟩
  · rfl
  · simp [Option.guard, declares, hcode, ofText_trim, Operation.code_ne_code]

end Clause.Softens

namespace Clause
variable {texts texts' : List String} (h : List.Forall₂ Softens texts texts')
include h

theorem declared_softens :
    Kind.declared (texts'.map ofText) = Kind.declared (texts.map ofText) := by
  simp only [Kind.declared, List.filterMap_map, Function.comp_def, code_ofText]
  exact filterMap_eq_of_forall₂ (h.imp fun _ _ hs => hs.ofCode?_code)

theorem defaultCode_softens (k : Kind) (configured : String) :
    k.defaultCode (texts'.map ofText) configured = k.defaultCode (texts.map ofText) configured := by
  have hdeclares :
      (texts'.map ofText).filter (·.declares k) = (texts.map ofText).filter (·.declares k) := by
    simp only [← List.filterMap_eq_filter, List.filterMap_map, Function.comp_def]
    exact filterMap_eq_of_forall₂ (h.imp fun _ _ hs => hs.guard_declares k)
  rw [Kind.defaultCode, Kind.defaultCode, hdeclares]

end Clause

namespace Scope
variable {sc : Scope} {text text' : String} {p : Part}

/-- A clause that is to store a trimmed string was read as such. -/
theorem Reads.of_storeTrimmed {c : Clause} (h : sc.Reads c p)
    (hcode : c.code = Operation.storeTrimmed.code) :
    sc.kind = .string ∧ p = .step (.trim true) := by
  cases h with
  | storeTrimmed _ hk => exact ⟨hk, rfl⟩
  | declaration h => exact absurd (hcode.symm.trans h) (Operation.code_ne_code _ _)
  | @test o t h ht =>
    obtain rfl := Operation.code_inj.1 (hcode.symm.trans h)
    cases hk : sc.kind <;> simp [hk, test?] at ht
  | _ h => exact absurd (Operation.code_inj.1 (hcode.symm.trans h)) (by simp)

theorem exists_part_of_softens (hs : Clause.Softens text text')
    (h : sc.part (.ofText text) = .ok p) :
    ∃ p', sc.part (.ofText text') = .ok p' ∧ p'.missing? = p.missing? ∧
      Option.Rel Step.Softens p.step? p'.step? := by
  rcases hs with rfl | ⟨hcode, rfl⟩
  · refine ⟨p, h, rfl, ?_⟩
    cases p.step? with
    | none => exact .none
    | some s => exact .some (.same s)
  · obtain ⟨hk, rfl⟩ := (reads_of_part h).of_storeTrimmed hcode
    refine ⟨.step (.trim false), ?_, rfl, .some .trim⟩
    have hcode' : (Clause.ofText Operation.trim.code).code = Operation.trim.code := by
      rw [Clause.ofText_trim]
    rw [part_of_code hcode', operation, Clause.ofText_trim]
    · rfl
    · exact hk

end Scope

theorem Builder.build_softens {b : Builder} {kind? : Option Kind} {field : String}
    {texts texts' : List String} {v : Validator} (h : List.Forall₂ Clause.Softens texts texts')
    (hv : b.build kind? field texts = .ok v) :
    ∃ w, b.build kind? field texts' = .ok w ∧ w.path = v.path ∧ w.rule.kind = v.rule.kind ∧
      w.rule.missing = v.rule.missing ∧ List.Forall₂ Step.Softens v.rule.chain w.rule.chain := by
  obtain ⟨path, rule⟩ := v
  obtain ⟨kind, parts, hpath, hcode, hk, hp, rfl⟩ := exists_parts_of_build hv
  have hcode' : ∀ text' ∈ texts', Clause.codeOf text' ≠ "" := by
    have hboth : List.Forall₂ (fun text' text => Clause.codeOf text' ≠ "" ∧
        Clause.Softens text text') texts' texts := by
      refine .flip (((List.forall₂_and_left _ _).2 ⟨hcode, h⟩).imp fun text text' hs => ?_)
      exact ⟨hs.2.code_ne_nil hs.1, hs.2⟩
    exact ((List.forall₂_and_left _ _).1 hboth).1
  obtain ⟨parts', hp', hparts⟩ := exists_mapM_of_forall₂ h hp
    fun text text' p hs hpart => Scope.exists_part_of_softens hs hpart
  refine ⟨_, build_of_declared hpath hcode' hk (Clause.declared_softens h)
    (Clause.defaultCode_softens h kind) hp', rfl, rfl, ?_, ?_⟩
  · have hmissing := filterMap_eq_of_forall₂ (hparts.imp fun _ _ hs => hs.1)
    exact congrArg List.getLast? hmissing
  · exact List.rel_filterMap (fun p p' hs => hs.2) hparts

/-- The meaning of trims. On a string, bare or in a nilable, the steps of a chain get their turn up
to the first stop that has a failing one before it. The check comes to a verdict if all exclusions
among them can look up what they name, and then to the codes of those that fail, where a step sees
the string trimmed if one before it trims. The string is left trimmed if one of them stores what it
trims, and as it was otherwise. So what a check comes to does not depend on which trims are stored,
and to check once more changes nothing. -/
theorem validate_string {b : Builder} {kind? : Option Kind} {field : String} {texts : List String}
    {v : Validator} (h : b.build kind? field texts = .ok v) (hkind : v.rule.kind = .string) :
    (∀ (c : Context) (found : Value) (x : String),
      c.subject.resolve (c.override.getD v.path) = .ok (some found) → found.string? = some x →
      ∃ reached, IsReached c.subject x v.rule.chain reached ∧
        ((∃ verdict, (v.validate c).1 = .ok verdict) ↔
          ∀ s ∈ reached, ∃ set, s.anySet c.subject = .ok set) ∧
        ∀ verdict, (v.validate c).1 = .ok verdict →
          verdict.unset = false ∧
          verdict.codes.toList = (failing c.subject x reached).eraseDups ∧
          (v.validate c).2 = (if reached.any Step.isStore then
            c.store (c.override.getD v.path) found.trimmed else c) ∧
          ∃ stored, (v.validate c).2.subject.resolve (c.override.getD v.path) = .ok (some stored) ∧
            stored.string? = some (storedBehind reached x)) ∧
    (∀ texts', List.Forall₂ Clause.Softens texts texts' →
      ∃ w, b.build kind? field texts' = .ok w ∧ ∀ c, (w.validate c).1 = (v.validate c).1) ∧
    ∀ c, (v.validate (v.validate c).2).2 = (v.validate c).2 := by
  refine ⟨fun c found x hfound hx => ?_, fun texts' hs => ?_, v.rule.check_snd_check hkind v.path⟩
  · have hwalk := Value.walk_of_resolve hfound
    obtain ⟨reached, hreached⟩ := exists_isReached c.subject x v.rule.chain
    refine ⟨reached, hreached, ?_⟩
    rw [Validator.validate, Rule.check_of_string hkind hfound hx]
    rcases checkChain_of_isReached v.path hwalk hx hreached with
      ⟨hall, hrun⟩ | ⟨before, s, after, e, hsplit, herror, hrun⟩
    · rw [hrun]
      refine ⟨⟨fun _ => hall, fun _ => ⟨_, rfl⟩⟩, fun verdict hv => ?_⟩
      obtain rfl := Except.ok.inj hv
      refine ⟨rfl, Codes.toList_ofList _, rfl, ?_⟩
      simp only [standBehind, storedBehind]
      split
      · refine ⟨found.trimmed, ?_, Value.string?_trimmed hx⟩
        have hstored := Context.Shows.store ⟨rfl, hwalk⟩ (.same found) (.trimmed found)
        rw [Value.resolve, hstored.walk]
        rfl
      · exact ⟨found, hfound, hx⟩
    · rw [hrun]
      refine ⟨⟨?_, fun hall => ?_⟩, fun verdict hv => by simp [Except.map] at hv⟩
      · rintro ⟨verdict, hv⟩
        simp [Except.map] at hv
      · obtain ⟨set, hset⟩ := hall s (by simp [hsplit])
        simp [herror] at hset
  · obtain ⟨w, hw, hpath, hk, hm, hchain⟩ := Builder.build_softens hs h
    refine ⟨w, hw, fun c => ?_⟩
    rw [Validator.validate, Validator.validate, hpath]
    exact Rule.check_softens hkind (hk.trans hkind) hm hchain v.path c

/-- A nilable that is too long before it is trimmed and excludes an alias. What is behind the stop
does not get its turn. -/
theorem trimmed_nilable_string :
    let b : Builder := {}
    let texts := ["STR", "LEN:1-3:LONG", "TRIM", "LEN:1-3:STILL", "MEX:alias:BOTH", "HARDTRIM",
      "BREAK", "IN:x:OTHER"]
    let texts' := ["STR", "LEN:1-3:LONG", "TRIM", "LEN:1-3:STILL", "MEX:alias:BOTH", "TRIM",
      "BREAK", "IN:x:OTHER"]
    let c : Context := { subject := .object [("name", .nilable (.string " abc ")),
      ("alias", .scalar (.string "z"))] }
    ∃ v w reached, b.build none "name" texts = .ok v ∧ v.rule.kind = .string ∧
      b.build none "name" texts' = .ok w ∧ IsReached c.subject " abc " v.rule.chain reached ∧
      (failing c.subject " abc " reached).eraseDups = ["LONG", "BOTH"] ∧
      storedBehind reached " abc " = "abc" ∧ (w.validate c).1 = (v.validate c).1 ∧
      (v.validate (v.validate c).2).2 = (v.validate c).2 := by
  intro b texts texts' c
  have hrun : (b.build none "name" texts).toOption.map (fun v => (v.path, v.rule.kind,
      (v.validate c).1, ((v.validate c).2.subject.resolve v.path).toOption.map
        (Option.bind · Value.string?))) =
      some (⟨["name"], by simp⟩, .string, .ok (.present (Codes.ofList ["LONG", "BOTH"])),
        some (some "abc")) := by decide +kernel
  obtain ⟨v, hv, hv'⟩ := exists_of_toOption_map hrun
  simp only [Prod.mk.injEq] at hv'
  obtain ⟨hpath, hkind, hverdict, hstored⟩ := hv'
  obtain ⟨hstring, hsoftens, hagain⟩ := validate_string hv hkind
  have hsofter : List.Forall₂ Clause.Softens texts texts' := by
    have hsame : ∀ text, Clause.Softens text text := fun _ => .inl rfl
    exact .cons (hsame _) (.cons (hsame _) (.cons (hsame _) (.cons (hsame _) (.cons (hsame _)
      (.cons (.inr ⟨by decide +kernel, rfl⟩) (.cons (hsame _) (.cons (hsame _) .nil)))))))
  obtain ⟨w, hw, hsame⟩ := hsoftens texts' hsofter
  obtain ⟨reached, hreached, _, hok⟩ := hstring c (.nilable (.string " abc ")) " abc "
    (by rw [hpath]; rfl) rfl
  obtain ⟨_, hcodes, _, stored, hfound, hx⟩ := hok _ hverdict
  have hbehind : stored.string? = some "abc" := by
    change (v.validate c).2.subject.resolve v.path = .ok (some stored) at hfound
    rw [hfound] at hstored
    exact Option.some.inj hstored
  exact ⟨v, w, reached, hv, hkind, hw, hreached, hcodes.symm,
    Option.some.inj (hx.symm.trans hbehind), hsame c, hagain c⟩

end FieldRules

import FieldRules.Proofs.Chains
import FieldRules.Proofs.Overriding

/-! Breaks. A break ends a chain when a code has been raised in front of it, and otherwise it is as if
it were not there. -/
namespace FieldRules

section
variable {field path : FieldPath} {before after : List Step} {p : Progress}

/-- What stands in front of a break fails or raises a code, and then that is all. -/
theorem checkChain_break :
    checkChain field path (before ++ .stop :: after) p =
      match checkChain field path before p with
      | (.error e, c) => (.error e, c)
      | (.ok codes, c) =>
        if codes.isEmpty then checkChain field path (before ++ after) p else (.ok codes, c) := by
  cases course field path before p with
  | fails hsteps hp hs =>
    rw [hsteps, List.append_assoc, List.cons_append, hp.checkChain_of_fails hs,
      hp.checkChain_of_fails hs]
  | stops hsteps hp hs =>
    rw [hsteps, List.append_assoc, List.cons_append, hp.checkChain_of_stops hs,
      hp.checkChain_of_stops hs]
    simp [Step.codes_of_take_stops hs]
  | passes hp =>
    rw [hp.checkChain_append, hp.checkChain_append, hp.checkChain_eq, checkChain]

end

namespace Rule

/-- The rule goes on with the steps where the other one ends. -/
structure Continues (r : Rule) (steps : List Step) (s : Rule) : Prop where
  kind : s.kind = r.kind
  missing : s.missing = r.missing
  chain : s.chain = r.chain ++ steps

/-- A rule that goes on behind a break. -/
theorem check_break {r broken whole : Rule} {after : List Step}
    (hb : r.Continues (.stop :: after) broken) (hw : r.Continues after whole) (field : FieldPath)
    (c : Context) :
    broken.check field c =
      match r.check field c with
      | (.error e, c') => (.error e, c')
      | (.ok verdict, c') =>
        if verdict.isValid then whole.check field c else (.ok verdict, c') := by
  cases hv : c.subject.resolve (c.override.getD field) with
  | error e => rw [check_of_error hv, check_of_error hv]
  | ok o =>
    cases o with
    | none =>
      simp only [check_of_none hv, hb.missing, hw.missing, ite_self]
    | some v =>
      simp only [check_of_some hv, hb.kind, hb.missing, hb.chain, hw.kind, hw.missing, hw.chain]
      cases r.kind.accepts v with
      | false => rfl
      | true =>
        cases v.isUnset with
        | true => exact (ite_self _).symm
        | false =>
          simp only [Bool.true_eq_false, Bool.false_eq_true, if_false, checkChain_break]
          cases checkChain field (c.override.getD field) r.chain ⟨c, v, ∅⟩ with
          | mk result c' =>
            cases result with
            | error e => rfl
            | ok codes =>
              cases h : codes.isEmpty <;> simp [Except.map, Verdict.present, Verdict.isValid, h]

theorem continues_ofParts {kind : Kind} {code : String} {parts more : List Part}
    (h : ∀ p ∈ more, p.missing? = none) :
    (ofParts kind code parts).Continues (ofParts kind code more).chain
      (ofParts kind code (parts ++ more)) where
  kind := rfl
  missing := by
    have hmore : more.filterMap Part.missing? = [] := List.filterMap_eq_nil_iff.2 h
    rw [ofParts, ofParts, List.filterMap_append, hmore, List.append_nil]
  chain := List.filterMap_append

end Rule

/-- All that the clauses add is steps: none of them declares a kind, requires the field or stops the
evaluation. -/
def AddSteps (texts : List String) : Prop :=
  ∀ c : Clause, c.IsIn texts →
    Kind.ofCode? c.code = none ∧ c.code ≠ Operation.required.code ∧ c.code ≠ Operation.stopAll.code

theorem AddSteps.append {texts more : List String} (h : AddSteps texts) (hm : AddSteps more) :
    AddSteps (texts ++ more) := by
  rintro c ⟨field, text, ht, hc⟩
  rcases List.mem_append.1 ht with ht | ht
  · exact h c ⟨field, text, ht, hc⟩
  · exact hm c ⟨field, text, ht, hc⟩

/-- The codes that the clauses start with decide what they may add. -/
theorem addSteps_of_codes {texts : List String}
    (h : ∀ code ∈ texts.map Clause.codeOf,
      Kind.ofCode? code = none ∧ code ≠ Operation.required.code ∧ code ≠ Operation.stopAll.code) :
    AddSteps texts := by
  rintro c ⟨field, text, ht, hc⟩
  rw [Clause.code_of_parse hc]
  exact h _ (List.mem_map_of_mem ht)

theorem Kind.defaultCode_of_not_declares {k : Kind} {clauses : List Clause} {configured : String}
    (h : ∀ c ∈ clauses, c.declares k = false) : k.defaultCode clauses configured = configured := by
  have hnone : clauses.filter (·.declares k) = [] :=
    List.filter_eq_nil_iff.2 fun c hc => by simp [h c hc]
  rw [defaultCode, hnone]
  rfl

namespace Builder
variable {b : Builder} {element : String → Except BuildError Rule} {field : String} {kind : Kind}
  {texts before after : List String} {v w : Validator}

/-- Where all that clauses add is steps, every one of them is read on its own. -/
theorem compile_eq_ok_iff_of_addSteps (h : AddSteps texts) {r : Rule} :
    b.compile element field (some kind) texts = .ok r ↔
      ∃ clauses parts, Clause.parseAll field texts = .ok clauses ∧
        clauses.mapM (b.scope element field kind []).part = .ok parts ∧
        r = Rule.ofParts kind (b.scope element field kind []).defaultCode parts := by
  have hscope : ∀ clauses, Clause.parseAll field texts = .ok clauses →
      b.scope element field kind clauses = b.scope element field kind [] := by
    intro clauses hc
    have hnone : ∀ c ∈ clauses, c.declares kind = false := by
      intro c hmem
      obtain ⟨text, ht, hparse⟩ := exists_of_mem_mapM hc hmem
      have hkind := (h c ⟨field, text, ht, hparse⟩).1
      rw [Clause.declares, decide_eq_false_iff_not]
      intro hcode
      simp [hcode] at hkind
    rw [scope, scope, Kind.defaultCode_of_not_declares hnone]
    rfl
  constructor
  · intro hr
    obtain ⟨clauses, kind', parts, hc, hk, hp, rfl⟩ := of_compile_eq_ok hr
    obtain rfl : kind = kind' := Except.ok.inj hk
    rw [hscope clauses hc] at hp ⊢
    exact ⟨clauses, parts, hc, hp, rfl⟩
  · rintro ⟨clauses, parts, hc, hp, rfl⟩
    rw [← hscope clauses hc] at hp ⊢
    simp only [compile, bind_eq_ok_iff, pure_eq_ok_iff]
    exact ⟨clauses, hc, kind, rfl, parts, hp, rfl⟩

/-- A part that such a clause adds is no code for a missing field. -/
theorem missing?_of_addSteps (h : AddSteps texts) {sc : Scope} {clauses : List Clause}
    {parts : List Part} (hc : Clause.parseAll field texts = .ok clauses)
    (hp : clauses.mapM sc.part = .ok parts) : ∀ p ∈ parts, p.missing? = none := by
  intro p hmem
  obtain ⟨c, hin, hr⟩ := exists_reads_of_mem hc hp hmem
  cases hr with
  | required hcode => exact absurd hcode (h c hin).2.1
  | _ => rfl

/-- Clauses that build on their own build one after the other, and the chain of the second ones goes
on where that of the first ones ends. -/
theorem exists_continues (hb : AddSteps before) (ha : AddSteps after)
    (hv : b.ruleOfKind kind field before = .ok v) (hw : b.ruleOfKind kind field after = .ok w) :
    ∃ t, b.ruleOfKind kind field (before ++ after) = .ok t ∧ t.path = v.path ∧
      v.rule.Continues w.rule.chain t.rule := by
  obtain ⟨hpath, hv⟩ := of_build_eq_ok hv
  obtain ⟨clauses, parts, hc, hp, hr⟩ := (compile_eq_ok_iff_of_addSteps hb).1 hv
  obtain ⟨clauses', parts', hc', hp', hr'⟩ :=
    (compile_eq_ok_iff_of_addSteps ha).1 (of_build_eq_ok hw).2
  have hrule := (compile_eq_ok_iff_of_addSteps (hb.append ha)).2
    ⟨_, _, mapM_append_eq_ok_iff.2 ⟨_, _, hc, hc', rfl⟩,
      mapM_append_eq_ok_iff.2 ⟨_, _, hp, hp', rfl⟩, rfl⟩
  refine ⟨_, build_of_compile hpath hrule, rfl, ?_⟩
  rw [hr, hr']
  exact Rule.continues_ofParts (missing?_of_addSteps ha hc' hp')

theorem addSteps_break : AddSteps ["BREAK"] := addSteps_of_codes (by decide)

/-- A break builds for every kind. -/
theorem exists_break (hv : b.ruleOfKind kind field before = .ok v) :
    ∃ t, b.ruleOfKind kind field ["BREAK"] = .ok t ∧ t.rule.chain = [.stop] := by
  have hpart : ∀ sc : Scope, sc.part ⟨"BREAK", [], "BREAK"⟩ = .ok (.step .stop) := fun sc =>
    Scope.part_of_code (o := .stop) rfl
  have hrule : b.compile (b.sharedRule field b.shared) field (some kind) ["BREAK"] = .ok _ :=
    (compile_eq_ok_iff_of_addSteps addSteps_break).2
      ⟨[⟨"BREAK", [], "BREAK"⟩], [.step .stop], by rfl, by simp [hpart], rfl⟩
  exact ⟨_, build_of_compile (of_build_eq_ok hv).1 hrule, rfl⟩

end Builder

/-- Clauses that only add steps, with a break between the first ones and the others. If the first ones
fail or raise a code, that is all that happens, also to the subject; if they raise none, it is as if
the break were not there. -/
theorem validate_break {b : Builder} {kind : Kind} {field : String} {before after : List String}
    {v w : Validator} (hb : AddSteps before) (ha : AddSteps after)
    (hv : b.ruleOfKind kind field before = .ok v) (hw : b.ruleOfKind kind field after = .ok w) :
    ∃ broken whole, b.ruleOfKind kind field (before ++ "BREAK" :: after) = .ok broken ∧
      b.ruleOfKind kind field (before ++ after) = .ok whole ∧
      ∀ c : Context,
        (∀ e c', v.validate c = (.error e, c') → broken.validate c = (.error e, c')) ∧
        (∀ verdict c', v.validate c = (.ok verdict, c') → verdict.isValid = false →
          broken.validate c = (.ok verdict, c')) ∧
        ∀ verdict c', v.validate c = (.ok verdict, c') → verdict.isValid = true →
          broken.validate c = whole.validate c := by
  obtain ⟨stop, hstop, hchain⟩ := Builder.exists_break hv
  obtain ⟨rest, hrest, -, hcont⟩ := Builder.exists_continues Builder.addSteps_break ha hstop hw
  obtain ⟨broken, hbroken, hpath, hb'⟩ :=
    Builder.exists_continues hb (Builder.addSteps_break.append ha) hv hrest
  obtain ⟨whole, hwhole, hpath', hw'⟩ := Builder.exists_continues hb ha hv hw
  rw [hcont.chain, hchain] at hb'
  refine ⟨broken, whole, hbroken, hwhole, fun c => ?_⟩
  have hrun := Rule.check_break hb' hw' v.path c
  rw [Validator.validate, Validator.validate, Validator.validate, hpath, hpath', hrun]
  refine ⟨?_, ?_, ?_⟩
  · intro e c' h
    rw [h]
  · intro verdict c' h hvalid
    simp [h, hvalid]
  · intro verdict c' h hvalid
    simp [h, hvalid]

/-- A name too long for what stands in front of the break is neither stored trimmed nor looked up; a
short one is both. -/
theorem long_name_break :
    let b : Builder := {}
    let before := ["TRIM", "BREAK", "LEN:1-2:LONG"]
    let after := ["HARDTRIM", "IN:a,b:OTHER"]
    let name : String → Context := fun s => { subject := .object [("name", .scalar (.string s))] }
    AddSteps before ∧ AddSteps after ∧ ∃ v w broken,
      b.ruleOfKind .string "name" before = .ok v ∧ b.ruleOfKind .string "name" after = .ok w ∧
      b.ruleOfKind .string "name" (before ++ "BREAK" :: after) = .ok broken ∧
      (v.validate (name " long ")).1 = .ok (.present (.ofList ["LONG"])) ∧
      broken.validate (name " long ") = v.validate (name " long ") ∧
      (broken.validate (name " c ")).1 = .ok (.present (.ofList ["OTHER"])) ∧
      (broken.validate (name " c ")).2.subject.same (name "c").subject = true := by
  intro b before after name
  have hb : AddSteps before := addSteps_of_codes (by decide +kernel)
  have ha : AddSteps after := addSteps_of_codes (by decide +kernel)
  have hfront : (b.ruleOfKind .string "name" before).toOption.map (fun v =>
      ((v.validate (name " long ")).1, (v.validate (name " c ")).1)) =
        some (.ok (.present (.ofList ["LONG"])), .ok (.present ∅)) := by decide +kernel
  have hback : (b.ruleOfKind .string "name" after).toOption.map (fun _ => ()) = some () := by
    decide +kernel
  have hall : (b.ruleOfKind .string "name" (before ++ after)).toOption.map (fun v =>
      ((v.validate (name " c ")).1,
        (v.validate (name " c ")).2.subject.same (name "c").subject)) =
          some (.ok (.present (.ofList ["OTHER"])), true) := by decide +kernel
  obtain ⟨v, hv, hruns⟩ := exists_of_toOption_map hfront
  obtain ⟨w, hw, -⟩ := exists_of_toOption_map hback
  obtain ⟨t, ht, hwhole⟩ := exists_of_toOption_map hall
  obtain ⟨hlong, hshort⟩ := Prod.mk.inj hruns
  obtain ⟨broken, whole, hbroken, ht', hrun⟩ := validate_break hb ha hv hw
  obtain rfl := Except.ok.inj (ht.symm.trans ht')
  have hsame := (hrun (name " c ")).2.2 _ _ (Prod.ext hshort rfl) (by decide)
  refine ⟨hb, ha, v, w, broken, hv, hw, hbroken, hlong, ?_, ?_, ?_⟩
  · have hfails : v.validate (name " long ") =
        (.ok (.present (.ofList ["LONG"])), (v.validate (name " long ")).2) := Prod.ext hlong rfl
    exact ((hrun (name " long ")).2.1 _ _ hfails (by decide)).trans hfails.symm
  · rw [hsame]
    exact (Prod.mk.inj hwhole).1
  · rw [hsame]
    exact (Prod.mk.inj hwhole).2

end FieldRules

import FieldRules.Proofs.Breaking
import FieldRules.Proofs.RaisedCodes

/-! Codes accumulate. A verdict lists what was raised, each code where it was raised first, so what
clauses at the end raise is listed behind what those before them raised. -/
namespace FieldRules

theorem Codes.prefix_addAll (codes : Codes) (new : List String) :
    codes.toList <+: (codes.addAll new).toList := by
  rw [toList_addAll]
  exact List.prefix_append _ _

/-- What the checks of elements raise one after the other, also what was raised before. -/
def eachRaised (check : Nat → Context → Checked Verdict) : List Nat → Context → List String
  | [], _ => []
  | i :: is, c =>
    match check i c with
    | (.error _, _) => []
    | (.ok v, c) => v.codes.toList ++ eachRaised check is c

theorem codes_of_checkEach {check : Nat → Context → Checked Verdict} {is : List Nat}
    {c c' : Context} {codes codes' : Codes} (h : checkEach check is c codes = (.ok codes', c')) :
    codes' = codes.addAll (eachRaised check is c) := by
  induction is generalizing c codes with
  | nil =>
    obtain ⟨rfl, _⟩ := by simpa [checkEach] using h
    rfl
  | cons i is ih =>
    unfold checkEach at h
    unfold eachRaised
    cases hi : check i c with
    | mk result c₁ =>
      cases result with
      | error e => simp [hi] at h
      | ok verdict =>
        simp only [hi] at h ⊢
        rw [ih h, Codes.addAll_append]

/-- What a step raises where it is taken. -/
def Step.raised (field path : FieldPath) : Step → Progress → List String
  | .exclusive others code, p =>
    match p.context.subject.anySet others with
    | .ok true => [code]
    | _ => []
  | .test t code, p => if t.holds p.seen then [] else [code]
  | .elements rule, p =>
    eachRaised (fun i c => c.inScope (path.element i) fun c => rule.check field c)
      (List.range p.seen.elementCount) p.context
  | _, _ => []

/-- What the steps of a chain raise one after the other, as far as it gets. -/
def chainRaised (field path : FieldPath) : List Step → Progress → List String
  | [], _ => []
  | s :: steps, p =>
    match s.take field path p with
    | .goesOn q => s.raised field path p ++ chainRaised field path steps q
    | _ => []

section
variable {field path : FieldPath} {s : Step} {steps before after : List Step} {p q : Progress}
  {codes : Codes} {c : Context}

/-- A step adds what it raises to what was raised before it. -/
theorem Step.codes_of_take (h : s.take field path p = .goesOn q) :
    q.codes = p.codes.addAll (s.raised field path p) := by
  cases s with
  | stop =>
    rw [take] at h
    split at h
    · cases h
      rfl
    · cases h
  | exclusive others code =>
    rw [take] at h
    rw [raised]
    cases hany : p.context.subject.anySet others with
    | error e => simp [hany] at h
    | ok set =>
      cases set <;>
      · rw [hany] at h
        cases h
        rfl
  | test t code =>
    cases h
    rw [raised]
    split <;> rfl
  | trim store =>
    cases h
    rfl
  | elements rule =>
    rw [take] at h
    split at h
    · rename_i codes c₁ heach
      cases h
      exact codes_of_checkEach heach
    · cases h

/-- By induction on the chain: what a stop leaves out is not raised. -/
theorem codes_of_checkChain (h : checkChain field path steps p = (.ok codes, c)) :
    codes = p.codes.addAll (chainRaised field path steps p) := by
  induction steps generalizing p with
  | nil =>
    obtain ⟨rfl, _⟩ := by simpa [checkChain] using h
    rfl
  | cons s steps ih =>
    rw [checkChain_cons] at h
    unfold chainRaised
    cases hs : s.take field path p with
    | fails e c' => simp [hs] at h
    | stops =>
      obtain ⟨rfl, _⟩ := by simpa [hs] using h
      rfl
    | goesOn q =>
      simp only [hs] at h ⊢
      rw [ih h, Step.codes_of_take hs, Codes.addAll_append]

theorem codes_prefix_of_checkChain (h : checkChain field path steps p = (.ok codes, c)) :
    p.codes.toList <+: codes.toList := by
  rw [codes_of_checkChain h]
  apply Codes.prefix_addAll

/-- A chain that comes to its end came to the end of its front, with the first of its codes. -/
theorem exists_front_of_checkChain
    (h : checkChain field path (before ++ after) p = (.ok codes, c)) :
    ∃ codes₁ c₁, checkChain field path before p = (.ok codes₁, c₁) ∧
      codes₁.toList <+: codes.toList := by
  cases course field path before p with
  | fails hsteps hp hs =>
    rw [hsteps, List.append_assoc, List.cons_append, hp.checkChain_of_fails hs] at h
    simp at h
  | stops hsteps hp hs =>
    rw [hsteps, List.append_assoc, List.cons_append, hp.checkChain_of_stops hs] at h
    obtain ⟨rfl, _⟩ := by simpa using h
    rw [hsteps]
    exact ⟨_, _, hp.checkChain_of_stops hs _, List.prefix_refl _⟩
  | passes hp =>
    rw [hp.checkChain_append] at h
    exact ⟨_, _, hp.checkChain_eq, codes_prefix_of_checkChain h⟩

end

namespace Rule
variable {r s : Rule} {field : FieldPath} {c c' : Context} {verdict : Verdict} {steps : List Step}

/-- What a check raises one after the other. -/
def raised (r : Rule) (field : FieldPath) (c : Context) : List String :=
  match c.subject.resolve (c.override.getD field) with
  | .ok (some v) =>
    if v.isUnset then r.missing.toList
    else chainRaised field (c.override.getD field) r.chain ⟨c, v, ∅⟩
  | _ => r.missing.toList

/-- A verdict lists each code once, where it was raised first. -/
theorem codes_of_check (h : r.check field c = (.ok verdict, c')) :
    verdict.codes.toList = (r.raised field c).eraseDups := by
  unfold raised
  cases hfound : c.subject.resolve (c.override.getD field) with
  | error e => simp [check_of_error hfound] at h
  | ok found =>
    cases found with
    | none =>
      rw [check_of_none hfound] at h
      obtain ⟨rfl, _⟩ := by simpa using h
      exact Codes.toList_ofList _
    | some v =>
      rw [check_of_some hfound] at h
      simp only
      split at h
      · simp at h
      · split at h
        · rename_i hu
          obtain ⟨rfl, _⟩ := by simpa using h
          rw [if_pos hu]
          exact Codes.toList_ofList _
        · rename_i hu
          rw [if_neg hu]
          cases hrun : checkChain field (c.override.getD field) r.chain ⟨c, v, ∅⟩ with
          | mk result c₁ =>
            cases result with
            | error e => simp [hrun, Except.map] at h
            | ok codes =>
              obtain ⟨rfl, _⟩ := by simpa [hrun, Except.map] using h
              rw [Verdict.present, codes_of_checkChain hrun]
              exact Codes.toList_ofList _

/-- Where the rule that goes on comes to a verdict, so does the other. -/
theorem Continues.exists_check (h : r.Continues steps s)
    (hs : s.check field c = (.ok verdict, c')) :
    ∃ first c₁, r.check field c = (.ok first, c₁) ∧ first.unset = verdict.unset ∧
      first.codes.toList <+: verdict.codes.toList := by
  cases hfound : c.subject.resolve (c.override.getD field) with
  | error e => simp [check_of_error hfound] at hs
  | ok found =>
    cases found with
    | none =>
      rw [check_of_none hfound, h.missing] at hs
      obtain ⟨rfl, _⟩ := by simpa using hs
      exact ⟨_, _, check_of_none hfound, rfl, List.prefix_refl _⟩
    | some v =>
      rw [check_of_some hfound, h.kind, h.missing, h.chain] at hs
      rw [check_of_some hfound]
      split at hs
      · simp at hs
      · rename_i hk
        rw [if_neg hk]
        split at hs
        · rename_i hu
          obtain ⟨rfl, _⟩ := by simpa using hs
          exact ⟨_, _, if_pos hu, rfl, List.prefix_refl _⟩
        · rename_i hu
          rw [if_neg hu]
          cases hrun : checkChain field (c.override.getD field) (r.chain ++ steps) ⟨c, v, ∅⟩ with
          | mk result c₂ =>
            cases result with
            | error e => simp [hrun, Except.map] at hs
            | ok codes =>
              obtain ⟨rfl, _⟩ := by simpa [hrun, Except.map] using hs
              obtain ⟨codes₁, c₁, hfront, hprefix⟩ := exists_front_of_checkChain hrun
              exact ⟨.present codes₁, c₁, by rw [hfront]; rfl, rfl, hprefix⟩

end Rule

/-- Clauses that only add steps, and others behind them. Where all of them come to a verdict, so do
the first ones alone. Each verdict lists what was raised, every code once, where it was raised first,
and the codes of the first clauses stand in front of all that the others add. -/
theorem validate_append {b : Builder} {kind : Kind} {field : String} {before after : List String}
    {v w : Validator} (hb : AddSteps before) (ha : AddSteps after)
    (hv : b.ruleOfKind kind field before = .ok v) (hw : b.ruleOfKind kind field after = .ok w) :
    ∃ whole, b.ruleOfKind kind field (before ++ after) = .ok whole ∧
      ∀ c verdict c', whole.validate c = (.ok verdict, c') →
        ∃ first c₁, v.validate c = (.ok first, c₁) ∧
          first.codes.toList = (v.rule.raised v.path c).eraseDups ∧
          verdict.codes.toList = (whole.rule.raised whole.path c).eraseDups ∧
          first.codes.toList.Nodup ∧ verdict.codes.toList.Nodup ∧
          first.codes.toList <+: verdict.codes.toList := by
  obtain ⟨whole, hwhole, hpath, hcont⟩ := Builder.exists_continues hb ha hv hw
  refine ⟨whole, hwhole, fun c verdict c' hverdict => ?_⟩
  have hcodes := Rule.codes_of_check hverdict
  rw [Validator.validate, hpath] at hverdict
  obtain ⟨first, c₁, hfirst, _, hprefix⟩ := hcont.exists_check hverdict
  exact ⟨first, c₁, hfirst, Rule.codes_of_check hfirst, hcodes, first.codes.nodup,
    verdict.codes.nodup, hprefix⟩

/-- Two tags that raise the same code, and behind them a list that raises it again. -/
theorem repeated_long_append :
    let b : Builder := { shared := [("tag", ["STR", "LEN:1-1:LONG", "IN:a,bb:OTHER"])] }
    let before := ["MEX:alias:BOTH", "ELEM:tag"]
    let after := ["LEN:0-1:LONG", "LEN:4-:SHORT", "BREAK", "ELEM:tag"]
    let c : Context := { subject := .object [("tags", .list [.scalar (.string "bb"),
      .scalar (.string "ccc"), .scalar (.string "a")])] }
    AddSteps before ∧ AddSteps after ∧ ∃ v w whole first verdict c₁ c',
      b.ruleOfKind .list "tags" before = .ok v ∧ b.ruleOfKind .list "tags" after = .ok w ∧
      b.ruleOfKind .list "tags" (before ++ after) = .ok whole ∧
      whole.validate c = (.ok verdict, c') ∧ v.validate c = (.ok first, c₁) ∧
      whole.rule.raised whole.path c = ["LONG", "LONG", "OTHER", "LONG", "SHORT"] ∧
      first.codes.toList = ["LONG", "OTHER"] ∧
      verdict.codes.toList = ["LONG", "OTHER", "SHORT"] ∧
      first.codes.toList <+: verdict.codes.toList := by
  intro b before after c
  have hb : AddSteps before := addSteps_of_codes (by decide +kernel)
  have ha : AddSteps after := addSteps_of_codes (by decide +kernel)
  have hfront : (b.ruleOfKind .list "tags" before).toOption.map (fun v =>
      v.rule.raised v.path c) = some ["LONG", "LONG", "OTHER"] := by decide +kernel
  have hback : (b.ruleOfKind .list "tags" after).toOption.map (fun _ => ()) = some () := by
    decide +kernel
  have hall : (b.ruleOfKind .list "tags" (before ++ after)).toOption.map (fun v =>
      ((v.validate c).1, v.rule.raised v.path c)) =
        some (.ok (.present (Codes.ofList ["LONG", "OTHER", "SHORT"])),
          ["LONG", "LONG", "OTHER", "LONG", "SHORT"]) := by decide +kernel
  obtain ⟨v, hv, hfirst⟩ := exists_of_toOption_map hfront
  obtain ⟨w, hw, -⟩ := exists_of_toOption_map hback
  obtain ⟨t, ht, hrun⟩ := exists_of_toOption_map hall
  obtain ⟨hverdict, hraised⟩ := Prod.mk.inj hrun
  obtain ⟨whole, hwhole, happend⟩ := validate_append hb ha hv hw
  obtain rfl := Except.ok.inj (ht.symm.trans hwhole)
  have hrun : t.validate c = (.ok (.present (Codes.ofList ["LONG", "OTHER", "SHORT"])),
      (t.validate c).2) := Prod.ext hverdict rfl
  obtain ⟨first, c₁, hv₁, hcodes, _, _, _, hprefix⟩ := happend c _ _ hrun
  refine ⟨hb, ha, v, w, t, first, _, c₁, _, hv, hw, ht, hrun, hv₁, hraised, ?_, rfl, hprefix⟩
  rw [hcodes, hfirst]
  decide

end FieldRules

import FieldRules.Proofs.Chains
import FieldRules.Proofs.Effects
import FieldRules.Proofs.EvaluationOrder
import FieldRules.Proofs.Runs

/-! Fields that exclude each other. Checks never change which fields are set, and so each of them finds
the others as they were in the beginning, wherever it stands in the order. -/
namespace FieldRules

namespace Value

/-- The field is there and not unset. -/
def sets (v : Value) (p : FieldPath) : Bool :=
  match v.resolve p with
  | .ok (some w) => !w.isUnset
  | _ => false

theorem sets_eq (v : Value) (p : FieldPath) :
    v.sets p = match v.standing p with
      | .ok (some u) => !u
      | _ => false := by
  rw [sets, standing]
  cases v.resolve p with
  | error e => rfl
  | ok o => cases o <;> rfl

/-- Trimmings set the same fields. -/
theorem TrimsTo.sets {v w : Value} (h : v.TrimsTo w) (p : FieldPath) : w.sets p = v.sets p := by
  rw [sets_eq, sets_eq, h.standing]

theorem any_sets_of_anySet {v : Value} {others : List FieldPath} {b : Bool}
    (h : v.anySet others = .ok b) : others.any v.sets = b := by
  induction others with
  | nil => exact Except.ok.inj h
  | cons p ps ih =>
    rw [anySet] at h
    rw [List.any_cons, sets]
    split at h
    · simp at h
    · rename_i hp
      rw [hp]
      exact ih h
    · rename_i w hp
      rw [hp]
      split at h
      · rename_i hw
        simp [hw, ih h]
      · rename_i hw
        simp [hw, ← Except.ok.inj h]

end Value

/-- No other operations ask for tests. -/
theorem Scope.isTest_of_test? {sc : Scope} {c : Clause} {k : Kind} {o : Operation}
    {t : Except BuildError Test} (h : sc.test? c k o = some t) :
    o ∈ [Operation.oneOf, .external, .length, .pattern, .is, .range] := by
  cases k <;> cases o <;> simp_all [test?]

/-- The clause declares a kind, stops the evaluation or trims. -/
def Clause.RaisesNothing (c : Clause) : Prop :=
  (Kind.ofCode? c.code).isSome = true ∨
    c.code ∈ [Operation.stopAll.code, Operation.trim.code, Operation.storeTrimmed.code]

/-- The clauses exclude these other fields, once. Beyond that they raise no codes. -/
def ExcludesOnly (field : String) (texts : List String) (others : List FieldPath) : Prop :=
  ∃ before c after, Clause.parseAll field texts = .ok (before ++ c :: after) ∧
    c.code = Operation.exclusive.code ∧ Scope.others c = .ok others ∧
    ∀ c' ∈ before ++ after, c'.RaisesNothing

theorem Clause.not_raisesNothing {c : Clause} {o : Operation} (h : c.code = o.code)
    (ho : o ∉ [Operation.stopAll, .trim, .storeTrimmed]) : ¬ c.RaisesNothing := by
  rw [RaisesNothing, h]
  revert ho
  cases o <;> decide

def Step.IsTrim (s : Step) : Prop := ∃ store, s = .trim store

namespace Scope
variable {sc : Scope} {c : Clause} {p : Part}

theorem Reads.of_raisesNothing (h : sc.Reads c p) (hc : c.RaisesNothing) :
    p.missing? = none ∧ ∀ s, p.step? = some s → s.IsTrim := by
  cases h with
  | declaration => exact ⟨rfl, by simp [Part.step?]⟩
  | stopAll => exact ⟨rfl, by simp [Part.step?]⟩
  | trim => exact ⟨rfl, fun s hs => ⟨false, (Option.some.inj hs).symm⟩⟩
  | storeTrimmed => exact ⟨rfl, fun s hs => ⟨true, (Option.some.inj hs).symm⟩⟩
  | @test o t hcode ht =>
    have htest := isTest_of_test? ht
    refine absurd hc (Clause.not_raisesNothing hcode ?_)
    revert htest
    cases o <;> decide
  | _ hcode => exact absurd hc (Clause.not_raisesNothing hcode (by decide))

theorem exclusive_of_part (h : sc.part c = .ok p) (hc : c.code = Operation.exclusive.code) :
    ∃ paths code, others c = .ok paths ∧ p = .step (.exclusive paths code) := by
  rw [part_of_code hc, operation] at h
  obtain ⟨_, _, paths, hp, h⟩ := by simpa only [bind_eq_ok_iff] using h
  exact ⟨paths, _, hp, (pure_eq_ok_iff.1 h).symm⟩

end Scope

/-- The rule excludes these other fields, and raises no other codes. -/
structure Rule.Excludes (r : Rule) (others : List FieldPath) : Prop where
  missing : r.missing = none
  chain : ∃ before code after, r.chain = before ++ .exclusive others code :: after ∧
    ∀ s ∈ before ++ after, s.IsTrim

theorem Rule.excludes_ofParts {kind : Kind} {defaultCode code : String} {others : List FieldPath}
    {before after : List Part} (h : ∀ p ∈ before ++ after, p.missing? = none ∧
      ∀ s, p.step? = some s → s.IsTrim) :
    (ofParts kind defaultCode (before ++ .step (.exclusive others code) :: after)).Excludes
      others where
  missing := by
    have hnone :
        (before ++ .step (.exclusive others code) :: after).filterMap Part.missing? = [] := by
      refine List.filterMap_eq_nil_iff.2 fun p hp => ?_
      rcases List.mem_append.1 hp with hp | hp
      · exact (h p (by simp [hp])).1
      · rcases List.mem_cons.1 hp with rfl | hp
        · rfl
        · exact (h p (by simp [hp])).1
    rw [ofParts, hnone]
    rfl
  chain := by
    refine ⟨before.filterMap Part.step?, code, after.filterMap Part.step?, List.filterMap_append,
      fun s hs => ?_⟩
    rw [← List.filterMap_append] at hs
    obtain ⟨p, hp, hs⟩ := List.mem_filterMap.1 hs
    exact (h p hp).2 s hs

theorem Builder.excludes_of_build {b : Builder} {kind? : Option Kind} {field : String}
    {texts : List String} {v : Validator} {others : List FieldPath}
    (h : b.build kind? field texts = .ok v) (hx : ExcludesOnly field texts others) :
    v.rule.Excludes others := by
  obtain ⟨clauses, kind, parts, hc, _, hp, hr⟩ := of_compile_eq_ok (of_build_eq_ok h).2
  obtain ⟨before, c, after, hparse, hcode, hothers, hrest⟩ := hx
  obtain rfl := Except.ok.inj (hc.symm.trans hparse)
  obtain ⟨ps, qs', hps, hqs', rfl⟩ := mapM_append_eq_ok_iff.1 hp
  simp only [List.mapM_cons, bind_eq_ok_iff, pure_eq_ok_iff] at hqs'
  obtain ⟨p, hpart, qs, hqs, rfl⟩ := hqs'
  obtain ⟨paths, code, hpaths, rfl⟩ := Scope.exclusive_of_part hpart hcode
  obtain rfl := Except.ok.inj (hpaths.symm.trans hothers)
  rw [hr]
  refine Rule.excludes_ofParts fun p hp => ?_
  rcases List.mem_append.1 hp with hp | hp
  · obtain ⟨c', hc', hpart'⟩ := exists_of_mem_mapM hps hp
    exact (Scope.reads_of_part hpart').of_raisesNothing (hrest c' (by simp [hc']))
  · obtain ⟨c', hc', hpart'⟩ := exists_of_mem_mapM hqs hp
    exact (Scope.reads_of_part hpart').of_raisesNothing (hrest c' (by simp [hc']))

section
variable {field path : FieldPath} {steps before after : List Step} {c c' : Context} {v : Value}
  {others : List FieldPath} {code : String} {codes : Codes}

theorem exists_passes_of_trims (h : ∀ s ∈ steps, s.IsTrim) (p : Progress) :
    ∃ q, Passes field path steps p q ∧ q.codes = p.codes := by
  induction steps generalizing p with
  | nil => exact ⟨p, .nil p, rfl⟩
  | cons s steps ih =>
    obtain ⟨store, rfl⟩ := h s (by simp)
    obtain ⟨q, hq, hcodes⟩ := ih (fun s hs => h s (by simp [hs]))
      ⟨if store then p.context.store path p.seen.trimmed else p.context, p.seen.trimmed, p.codes⟩
    exact ⟨q, .cons rfl hq, hcodes⟩

/-- Behind its trims, which set and unset nothing, the exclusion finds what was set before. -/
theorem codes_of_exclusion (htrims : ∀ s ∈ before ++ after, s.IsTrim)
    (hv : c.subject.walk path.segments = .ok (some v))
    (h : checkChain field path (before ++ .exclusive others code :: after) ⟨c, v, ∅⟩ =
      (.ok codes, c')) :
    codes.toList ≠ [] ↔ others.any c.subject.sets = true := by
  obtain ⟨p, hp, hpc⟩ : ∃ p, Passes field path before ⟨c, v, ∅⟩ p ∧ p.codes = ∅ :=
    exists_passes_of_trims (fun s hs => htrims s (List.mem_append_left _ hs)) _
  rw [hp.checkChain_append, checkChain_cons, Step.take] at h
  cases ha : p.context.subject.anySet others with
  | error e => simp [ha] at h
  | ok set =>
    have hset : others.any c.subject.sets = set := by
      rw [← Value.any_sets_of_anySet ha]
      exact congrArg others.any (funext fun q => ((hp.trimsTo hv).sets q).symm)
    have hrest : ∀ p' : Progress, checkChain field path after p' = (.ok codes, c') →
        codes = p'.codes := by
      intro p' h
      obtain ⟨q, hq, hqc⟩ := exists_passes_of_trims
        (fun s hs => htrims s (List.mem_append_right _ hs)) p'
      rw [hq.checkChain_eq] at h
      rw [← hqc, Except.ok.inj (Prod.mk.inj h).1]
    rw [hset]
    cases set with
    | true =>
      simp only [ha] at h
      rw [hrest _ h]
      simp [Progress.raise, hpc, Codes.toList_add]
    | false =>
      simp only [ha] at h
      rw [hrest _ h, hpc]
      simp

/-- A field that excludes others raises a code exactly where it is set beside one of them. -/
theorem Rule.Excludes.codes_ne_nil_iff {r : Rule} (hr : r.Excludes others) {d : Verdict}
    (h : r.check field c = (.ok d, c')) :
    d.codes.toList ≠ [] ↔
      c.subject.sets (c.override.getD field) = true ∧ others.any c.subject.sets = true := by
  have hnone : (Verdict.missing none).codes.toList = [] := rfl
  cases hv : c.subject.resolve (c.override.getD field) with
  | error e => simp [check_of_error hv] at h
  | ok o =>
    cases o with
    | none =>
      rw [check_of_none hv, hr.missing] at h
      obtain rfl := Except.ok.inj (Prod.mk.inj h).1
      simp [Value.sets, hv, hnone]
    | some v =>
      rw [check_of_some hv, hr.missing] at h
      split at h
      · simp at h
      · split at h
        · rename_i hu
          obtain rfl := Except.ok.inj (Prod.mk.inj h).1
          simp [Value.sets, hv, hnone, hu]
        · rename_i hu
          obtain ⟨before, code, after, hchain, htrims⟩ := hr.chain
          cases hrun : checkChain field (c.override.getD field) r.chain ⟨c, v, ∅⟩ with
          | mk result c₁ =>
            rw [hrun] at h
            cases result with
            | error e => simp [Except.map] at h
            | ok codes =>
              obtain ⟨rfl, rfl⟩ := by simpa [Except.map] using h
              rw [hchain] at hrun
              have hcodes := codes_of_exclusion htrims (Value.walk_of_resolve hv) hrun
              simpa [Value.sets, hv, hu, Verdict.present] using hcodes

end

/-- Every validator of a run has been run, in the context of the beginning but for strings that were
trimmed. -/
theorem Completes.exists_of_mem {vs : List Validator} {c c' : Context}
    {ds : List (Validator × Verdict)} (h : Completes vs c ds c') {v : Validator} (hv : v ∈ vs) :
    ∃ d c₁ c₂, (v, d) ∈ ds ∧ v.validate c₁ = (.ok d, c₂) ∧ c.subject.TrimsTo c₁.subject ∧
      c₁.override = c.override := by
  induction h with
  | nil => simp at hv
  | @cons w vs e ds c c₁ c₂ h _ ih =>
    rcases List.mem_cons.1 hv with rfl | hv
    · exact ⟨e, c, c₁, by simp, h, .same _, rfl⟩
    · obtain ⟨d, c₃, c₄, hd, hrun, ht, ho⟩ := ih hv
      obtain ⟨ht', ho', _⟩ := w.rule.check_effect w.path c
      rw [show w.rule.check w.path c = (.ok e, c₁) from h] at ht' ho'
      exact ⟨d, c₃, c₄, List.mem_cons_of_mem _ hd, hrun, ht'.trans ht, ho.trans ho'⟩

/-- Beside one that counts there is a second that does. -/
theorem two_le_countP_iff {α β : Type} {l : List α} {f : α → β} (hd : (l.map f).Nodup)
    {counts : α → Bool} {a : α} (ha : a ∈ l) (hc : counts a = true) :
    2 ≤ l.countP counts ↔ ∃ b ∈ l, f b ≠ f a ∧ counts b = true := by
  obtain ⟨l₁, l₂, rfl⟩ := List.append_of_mem ha
  have hperm : (l₁ ++ a :: l₂).Perm (a :: (l₁ ++ l₂)) := List.perm_middle
  have hnot : ∀ b ∈ l₁ ++ l₂, f b ≠ f a := by
    intro b hb he
    have hd' := (hperm.map f).nodup_iff.1 hd
    rw [List.map_cons] at hd'
    exact (List.nodup_cons.1 hd').1 (he ▸ List.mem_map_of_mem hb)
  rw [hperm.countP_eq, List.countP_cons_of_pos hc, Nat.succ_le_succ_iff, Nat.one_le_iff_ne_zero,
    ← Nat.pos_iff_ne_zero, List.countP_pos_iff]
  constructor
  · rintro ⟨b, hb, hcb⟩
    exact ⟨b, hperm.mem_iff.2 (List.mem_cons_of_mem a hb), hnot b hb, hcb⟩
  · rintro ⟨b, hb, hne, hcb⟩
    rcases List.mem_cons.1 (hperm.mem_iff.1 hb) with rfl | hb
    · exact absurd rfl hne
    · exact ⟨b, hb, hcb⟩

/-- Each of the fields excludes exactly the others. -/
def AreExclusive (group : List Validator) : Prop :=
  ∀ v ∈ group, ∃ (b : Builder) (kind? : Option Kind) (field : String) (texts : List String)
    (others : List FieldPath), b.build kind? field texts = .ok v ∧ ExcludesOnly field texts others ∧
      ∀ q, q ∈ others ↔ q ∈ group.map Validator.path ∧ q ≠ v.path

theorem areExclusive_validators {b : Builder} {lines : List (String × List String)}
    (h : ∀ l ∈ lines, ∃ own others, FieldPath.parse l.1 = .ok own ∧ ExcludesOnly l.1 l.2 others ∧
      ∀ q, q ∈ others ↔ q ∈ (b.validators lines).map Validator.path ∧ q ≠ own) :
    AreExclusive (b.validators lines) := by
  intro v hv
  obtain ⟨l, hl, hv⟩ := List.mem_filterMap.1 hv
  obtain ⟨own, others, hown, hx, hothers⟩ := h l hl
  have hbuild : b.build none l.1 l.2 = .ok v := toOption_eq_some_iff.1 hv
  obtain rfl := Except.ok.inj ((Builder.of_build_eq_ok hbuild).1.symm.trans hown)
  exact ⟨b, none, l.1, l.2, others, hbuild, hx, hothers⟩

namespace RuleSet

/-- The verdict on one of the fields depends on what is set in the beginning. -/
theorem exists_verdict_of_exclusive {cycle? : Graph → Option Nat} {vs : List Validator}
    (hb : ∀ v ∈ vs, v.IsBuilt) {rs : RuleSet}
    (hrs : ofValidatorsBy cycle? vs ⟨.signal, .orderOnly⟩ = .ok rs) {group : List Validator}
    (hsub : group ⊆ vs) (hd : (group.map Validator.field).Nodup) (hgroup : AreExclusive group)
    {subject subject' : Value} {o : Outcome} (h : rs.validate subject = (.ok o, subject'))
    {v : Validator} (hv : v ∈ group) :
    ∃ d, o.find? v.field = some d ∧
      (d.codes.toList ≠ [] ↔
        subject.sets v.path = true ∧ 2 ≤ group.countP fun w => subject.sets w.path) := by
  obtain ⟨hdv, rfl⟩ := of_ofValidatorsBy_eq_ok hb hrs
  obtain ⟨ds, c', hrun, rfl, _⟩ := validate_eq_ok_iff.1 h
  obtain ⟨d, c₁, c₂, hmem, hvd, ht, ho⟩ := hrun.exists_of_mem (mem_inOrder.2 (hsub hv))
  refine ⟨d, Outcome.find?_recordAll_of_mem (hrun.map_field ▸ inOrder_nodup hdv) hmem, ?_⟩
  obtain ⟨b, kind?, field, texts, others, hbuild, hx, hothers⟩ := hgroup v hv
  have hcodes := (Builder.excludes_of_build hbuild hx).codes_ne_nil_iff hvd
  rw [ho, show c₁.subject.sets = subject.sets from funext ht.sets] at hcodes
  have hpaths : (group.map Validator.path).Nodup := by
    refine List.Nodup.of_map FieldPath.text ?_
    rwa [List.map_map]
  refine hcodes.trans (and_congr_right fun hset => ?_)
  have hcount : 2 ≤ group.countP (fun w => subject.sets w.path) ↔
      ∃ w ∈ group, w.path ≠ v.path ∧ subject.sets w.path = true := two_le_countP_iff hpaths hv hset
  rw [hcount, List.any_eq_true]
  constructor
  · rintro ⟨q, hq, hs⟩
    obtain ⟨hmem, hne⟩ := (hothers q).1 hq
    obtain ⟨w, hw, rfl⟩ := List.mem_map.1 hmem
    exact ⟨w, hw, hne, hs⟩
  · rintro ⟨w, hw, hne, hs⟩
    exact ⟨w.path, (hothers _).2 ⟨List.mem_map_of_mem hw, hne⟩, hs⟩

/-- Fields that exclude each other agree on who clashes: where at most one of them is set in the
beginning none raises a code, and where two or more are, those that are set do and the others do not.
Neither other fields nor the order of declaration make a difference. -/
theorem validate_exclusive {cycle? : Graph → Option Nat} {vs : List Validator}
    (hb : ∀ v ∈ vs, v.IsBuilt) {rs : RuleSet}
    (hrs : ofValidatorsBy cycle? vs ⟨.signal, .orderOnly⟩ = .ok rs) {group : List Validator}
    (hsub : group ⊆ vs) (hd : (group.map Validator.field).Nodup) (hgroup : AreExclusive group)
    {subject subject' : Value} {o : Outcome} (h : rs.validate subject = (.ok o, subject')) :
    (group.countP (fun v => subject.sets v.path) ≤ 1 →
      ∀ v ∈ group, ∃ d, o.find? v.field = some d ∧ d.codes.toList = []) ∧
    (2 ≤ group.countP (fun v => subject.sets v.path) →
      ∀ v ∈ group, ∃ d, o.find? v.field = some d ∧
        (d.codes.toList ≠ [] ↔ subject.sets v.path = true)) := by
  refine ⟨fun hone v hv => ?_, fun htwo v hv => ?_⟩
  · obtain ⟨d, hfind, hcodes⟩ := exists_verdict_of_exclusive hb hrs hsub hd hgroup h hv
    refine ⟨d, hfind, ?_⟩
    by_contra hne
    have := (hcodes.1 hne).2
    omega
  · obtain ⟨d, hfind, hcodes⟩ := exists_verdict_of_exclusive hb hrs hsub hd hgroup h hv
    exact ⟨d, hfind, hcodes.trans (and_iff_left htwo)⟩

/-- Of an address, a number and a nilable, two that are set raise their codes, though one of them has
been trimmed by then, and a number alone raises none. -/
theorem contacts_exclusive :
    let mail := ("to.mail", ["STR", "HARDTRIM", "MEX:tel,to.fax:ONE"])
    let tel := ("tel", ["INT", "MEX:to.fax, to.mail"])
    let fax := ("to.fax", ["STR:FAX", "TRIM", "MEX:to.mail,tel", "STOPALL"])
    let vs := Builder.validators {} [mail, ("to", ["OBJ"]), tel, fax]
    let group := Builder.validators {} [mail, tel, fax]
    let two : Value := .object [("to", .object [("mail", .scalar (.string " a ")),
      ("fax", .nilable (.string "b"))])]
    let one : Value := .object [("to", .object [("fax", .unset .string)]),
      ("tel", .scalar (.int 3))]
    (∀ v ∈ vs, v.IsBuilt) ∧ group ⊆ vs ∧ (group.map Validator.field).Nodup ∧ AreExclusive group ∧
      ∃ rs o s o' s', ofValidatorsBy Graph.stuck? vs ⟨.signal, .orderOnly⟩ = .ok rs ∧
        rs.validate two = (.ok o, s) ∧ rs.validate one = (.ok o', s') ∧
        (∀ v ∈ group, ∃ d, o.find? v.field = some d ∧
          (d.codes.toList ≠ [] ↔ two.sets v.path = true)) ∧
        ∀ v ∈ group, ∃ d, o'.find? v.field = some d ∧ d.codes.toList = [] := by
  intro mail tel fax vs group two one
  have hb : ∀ v ∈ vs, v.IsBuilt := fun v hv => Builder.isBuilt_of_mem_validators hv
  have hsub : group ⊆ vs := by
    intro v hv
    obtain ⟨l, hl, hv⟩ := List.mem_filterMap.1 hv
    exact List.mem_filterMap.2 ⟨l, by simp at hl ⊢; tauto, hv⟩
  have hpaths : group.map Validator.path =
      [⟨["to", "mail"], by simp⟩, ⟨["tel"], by simp⟩, ⟨["to", "fax"], by simp⟩] := by
    decide +kernel
  have hcount : ∀ subject : Value, group.countP (fun v => subject.sets v.path) =
      (group.map Validator.path).countP subject.sets := fun _ => by
    rw [List.countP_map]
    rfl
  have hfields : ∀ us : List Validator, us.map Validator.field =
      (us.map Validator.path).map FieldPath.text := fun _ => by
    rw [List.map_map]
    rfl
  have hd : (group.map Validator.field).Nodup := by
    rw [hfields, hpaths]
    decide +kernel
  have hgroup : AreExclusive group := by
    refine areExclusive_validators fun l hl => ?_
    rw [show (Builder.validators {} _).map Validator.path = _ from hpaths]
    simp only [List.mem_cons, List.not_mem_nil, or_false] at hl
    rcases hl with rfl | rfl | rfl
    · refine ⟨⟨["to", "mail"], by simp⟩, [⟨["tel"], by simp⟩, ⟨["to", "fax"], by simp⟩],
        show FieldPath.parse "to.mail" = _ by rfl,
        ⟨[⟨"STR", [], "STR"⟩, ⟨"HARDTRIM", [], "HARDTRIM"⟩],
          ⟨"MEX", ["tel,to.fax", "ONE"], "MEX:tel,to.fax:ONE"⟩, [], by rfl, rfl, by rfl, ?_⟩, ?_⟩
      · unfold Clause.RaisesNothing
        decide
      · grind
    · refine ⟨⟨["tel"], by simp⟩, [⟨["to", "fax"], by simp⟩, ⟨["to", "mail"], by simp⟩],
        show FieldPath.parse "tel" = _ by rfl,
        ⟨[⟨"INT", [], "INT"⟩], ⟨"MEX", ["to.fax, to.mail"], "MEX:to.fax, to.mail"⟩, [], by rfl, rfl,
          by rfl, ?_⟩, ?_⟩
      · unfold Clause.RaisesNothing
        decide
      · grind
    · refine ⟨⟨["to", "fax"], by simp⟩, [⟨["to", "mail"], by simp⟩, ⟨["tel"], by simp⟩],
        show FieldPath.parse "to.fax" = _ by rfl,
        ⟨[⟨"STR", ["FAX"], "STR:FAX"⟩, ⟨"TRIM", [], "TRIM"⟩],
          ⟨"MEX", ["to.mail,tel"], "MEX:to.mail,tel"⟩, [⟨"STOPALL", [], "STOPALL"⟩], by rfl, rfl,
          by rfl, ?_⟩, ?_⟩
      · unfold Clause.RaisesNothing
        decide
      · grind
  have hdv : (vs.map Validator.field).Nodup := by decide +kernel
  have hrs : ofValidatorsBy Graph.stuck? vs ⟨.signal, .orderOnly⟩ =
      .ok ⟨inOrder vs, ⟨.signal, .orderOnly⟩⟩ :=
    ofValidatorsBy_of_nodup hb hdv ((Graph.stuck?_eq_none_iff _).2
      (Graph.isAcyclic_of_rank (isRanked_dependencies hb hdv))) _
  obtain ⟨o, s, h, -⟩ := exists_outcome ⟨inOrder vs, ⟨.signal, .orderOnly⟩⟩ two (fun _ => ()) ()
    (by decide +kernel)
  obtain ⟨o', s', h', -⟩ := exists_outcome ⟨inOrder vs, ⟨.signal, .orderOnly⟩⟩ one (fun _ => ()) ()
    (by decide +kernel)
  refine ⟨hb, hsub, hd, hgroup, _, o, s, o', s', hrs, h, h', ?_, ?_⟩
  · refine (validate_exclusive hb hrs hsub hd hgroup h).2 ?_
    rw [hcount, hpaths]
    decide +kernel
  · refine (validate_exclusive hb hrs hsub hd hgroup h').1 ?_
    rw [hcount, hpaths]
    decide +kernel

end RuleSet
end FieldRules

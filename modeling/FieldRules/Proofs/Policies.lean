import FieldRules.Proofs.EvaluationOrder
import FieldRules.Proofs.Runs

/-! What difference the policies of a rule set make: none where everything is valid, and a halt cuts
an evaluation off behind the field that stops it. -/
namespace FieldRules

namespace RuleSet

/-- Whether validators are accepted, and in which order, does not depend on the policies. -/
theorem ofValidatorsBy_withConfig {cycle? : Graph → Option Nat} {vs : List Validator}
    {config : RuleSetConfig} {rs : RuleSet} (h : ofValidatorsBy cycle? vs config = .ok rs)
    (config' : RuleSetConfig) :
    rs.config = config ∧ ofValidatorsBy cycle? vs config' = .ok { rs with config := config' } := by
  rw [ofValidatorsBy, bind_eq_ok_iff] at h
  obtain ⟨order, ho, h⟩ := h
  obtain rfl := pure_eq_ok_iff.1 h
  refine ⟨rfl, ?_⟩
  rw [ofValidatorsBy, bind_eq_ok_iff]
  exact ⟨order, ho, rfl⟩

end RuleSet

namespace RuleSetConfig
variable {c : RuleSetConfig} {d : DependencyPolicy} {v : Validator} {vs : List Validator}
  {failed failed' : List String} {o o' : Outcome} {ctx ctx' : Context}

/-- The results so far stay in front of those to come. -/
theorem results_of_evaluate (hf : o.IsFresh (vs.map Validator.field))
    (h : c.evaluate vs failed o ctx = (.ok o', ctx')) :
    ∃ later, o'.results = o.results ++ later := by
  obtain ⟨ds, skipped, hr, hsub, _, rfl⟩ := exists_completes h
  have hfields : (ds.map fun e => e.1.field).Sublist (vs.map Validator.field) :=
    hr.map_field ▸ hsub.map Validator.field
  exact ⟨_, Outcome.results_recordAll (hf.of_sublist hfields)⟩

/-- What stopped the evaluation before has stopped it in the end. -/
theorem stoppedBy_of_evaluate (hs : o.stopAll = true)
    (h : c.evaluate vs failed o ctx = (.ok o', ctx')) :
    o'.stopAll = true ∧ o'.stoppedBy = o.stoppedBy := by
  obtain ⟨ds, skipped, _, _, _, rfl⟩ := exists_completes h
  refine ⟨?_, Outcome.stoppedBy_recordAll hs ds⟩
  rw [Outcome.skipAll, Outcome.stopAll_recordAll, hs, Bool.true_or]

/-- An evaluation with a valid outcome skipped nothing and found nothing. -/
theorem completes_of_isValid (hf : o.IsFresh (vs.map Validator.field)) (ho : o.stopAll = false)
    (h : c.evaluate vs [] o ctx = (.ok o', ctx')) (hv : o'.isValid = true) :
    ∃ ds, Completes vs ctx ds ctx' ∧ (∀ e ∈ ds, e.2.isValid = true) ∧ o' = o.recordAll ds := by
  induction vs generalizing o ctx with
  | nil =>
    obtain ⟨rfl, rfl⟩ := by simpa [evaluate] using h
    exact ⟨[], .nil ctx, by simp, rfl⟩
  | cons v vs ih =>
    have hgo : c.halts o = false ∧ c.blocks v [] = false := by simp [halts, blocks, ho]
    rw [evaluate, hgo.1, hgo.2] at h
    simp only [Bool.false_eq_true, if_false] at h
    split at h
    · simp at h
    · rename_i d ctx₁ hvd
      have hf' : (o.record v d).IsFresh (vs.map Validator.field) := hf.record d
      -- The verdict stands in the outcome in the end, and so it is valid.
      have hd : d.isValid = true := by
        obtain ⟨later, hl⟩ := results_of_evaluate hf' h
        rw [hf.results_record] at hl
        simp only [Outcome.isValid, List.all_eq_true] at hv
        exact hv (v.field, d) (by simp [hl])
      have ho' : (o.record v d).stopAll = false := by
        rw [Outcome.stopAll_record, ho, hd]
        simp
      rw [if_pos hd] at h
      obtain ⟨ds, hr, hds, rfl⟩ := ih hf' ho' h
      exact ⟨(v, d) :: ds, .cons hvd hr, List.forall_mem_cons.2 ⟨hd, hds⟩, rfl⟩

/-- The validator is the one that stopped the evaluation, just now. Others are left. -/
structure IsStoppedAt (o : Outcome) (v : Validator) (left : List Validator) : Prop where
  stopAll : o.stopAll = true
  stoppedBy : o.stoppedBy = some v.field
  last : ∃ earlier verdict, o.results = earlier ++ [(v.field, verdict)]
  fresh : o.IsFresh (left.map Validator.field)

theorem isStoppedAt_record (hf : o.IsFresh ((v :: vs).map Validator.field))
    (ho : o.stopAll = false) {verdict : Verdict} (hs : (o.record v verdict).stopAll = true) :
    IsStoppedAt (o.record v verdict) v vs where
  stopAll := hs
  stoppedBy := by
    rw [Outcome.stopAll_record, ho, Bool.false_or] at hs
    rw [Outcome.stoppedBy_record, if_pos ⟨ho, hs⟩]
  last := ⟨_, verdict, hf.results_record verdict⟩
  fresh := hf.record verdict

/-- To halt comes to the same as to signal, or it comes to an end behind a validator where the
other goes on. -/
inductive HaltsAlike (d : DependencyPolicy) (vs : List Validator) (failed : List String)
    (o : Outcome) (ctx : Context) : Prop
  | unstopped
      (heq : RuleSetConfig.evaluate ⟨.halt, d⟩ vs failed o ctx =
        RuleSetConfig.evaluate ⟨.signal, d⟩ vs failed o ctx)
      (hs : ∀ o' ctx', RuleSetConfig.evaluate ⟨.signal, d⟩ vs failed o ctx = (.ok o', ctx') →
        o'.stopAll = false)
  | stopped (earlier : List Validator) (v : Validator) (left : List Validator)
      (failed' : List String) (o' : Outcome) (ctx' : Context) (hvs : vs = earlier ++ v :: left)
      (ho : IsStoppedAt o' v left)
      (hh : RuleSetConfig.evaluate ⟨.halt, d⟩ vs failed o ctx =
        (.ok (o'.skipAll (left.map Validator.field)), ctx'))
      (hs : RuleSetConfig.evaluate ⟨.signal, d⟩ vs failed o ctx =
        RuleSetConfig.evaluate ⟨.signal, d⟩ left failed' o' ctx')

/-- A step that both policies take. -/
theorem HaltsAlike.step (h : HaltsAlike d vs failed' o' ctx')
    (hstep : ∀ p, RuleSetConfig.evaluate ⟨p, d⟩ (v :: vs) failed o ctx =
      RuleSetConfig.evaluate ⟨p, d⟩ vs failed' o' ctx') : HaltsAlike d (v :: vs) failed o ctx := by
  cases h with
  | unstopped heq hs =>
    refine .unstopped ?_ fun o₁ ctx₁ h => hs o₁ ctx₁ (by rw [← hstep, h])
    rw [hstep, hstep, heq]
  | stopped earlier w left failed₁ o₁ ctx₁ hvs ho hh hs =>
    refine .stopped (v :: earlier) w left failed₁ o₁ ctx₁ (by rw [hvs]; rfl) ho ?_ ?_
    · rw [hstep, hh]
    · rw [hstep, hs]

theorem haltsAlike (d : DependencyPolicy) (failed : List String) (ctx : Context)
    (hf : o.IsFresh (vs.map Validator.field)) (ho : o.stopAll = false) :
    HaltsAlike d vs failed o ctx := by
  induction vs generalizing failed o ctx with
  | nil =>
    refine .unstopped rfl fun o' ctx' h => ?_
    obtain ⟨rfl, rfl⟩ := by simpa [evaluate] using h
    exact ho
  | cons v vs ih =>
    have hgo : ∀ p, RuleSetConfig.halts ⟨p, d⟩ o = false := fun p => by simp [halts, ho]
    have hblocks : ∀ p, RuleSetConfig.blocks ⟨p, d⟩ v failed =
        RuleSetConfig.blocks ⟨.signal, d⟩ v failed := fun p => rfl
    cases hb : RuleSetConfig.blocks ⟨.signal, d⟩ v failed with
    | true =>
      apply (ih (v.field :: failed) ctx hf.skip ho).step
      intro p
      rw [evaluate, hgo, hblocks, hb]
      rfl
    | false =>
      cases hv : v.validate ctx with
      | mk result ctx₁ =>
        cases result with
        | error e =>
          have herror : ∀ p, RuleSetConfig.evaluate ⟨p, d⟩ (v :: vs) failed o ctx =
              (.error e, ctx₁) := by
            intro p
            rw [evaluate, hgo, hblocks, hb, hv]
            rfl
          refine .unstopped ?_ fun o' ctx' h => ?_
          · rw [herror, herror]
          · rw [herror] at h
            simp at h
        | ok verdict =>
          have hok : ∀ p, RuleSetConfig.evaluate ⟨p, d⟩ (v :: vs) failed o ctx =
              RuleSetConfig.evaluate ⟨p, d⟩ vs
                (if verdict.isValid then failed else v.field :: failed) (o.record v verdict)
                ctx₁ := by
            intro p
            rw [evaluate, hgo, hblocks, hb, hv]
            rfl
          cases hs : (o.record v verdict).stopAll with
          | false => exact (ih _ ctx₁ (hf.record verdict) hs).step hok
          | true =>
            refine .stopped [] v vs _ _ ctx₁ rfl (isStoppedAt_record hf ho hs) ?_ (hok _)
            rw [hok, evaluate_of_halts (by simp [halts, hs])]

end RuleSetConfig

/-- The outcome is the other's up to the field that stopped both, if one did. All fields behind it
in the order are skipped. -/
structure Outcome.IsCutOff (h o : Outcome) (order : List String) : Prop where
  stopAll : h.stopAll = o.stopAll
  stoppedBy : h.stoppedBy = o.stoppedBy
  unstopped : o.stopAll = false → h.results = o.results
  stopped : o.stopAll = true → ∃ f earlier verdict later, o.stoppedBy = some f ∧
    o.results = earlier ++ (f, verdict) :: later ∧ h.results = earlier ++ [(f, verdict)] ∧
    ∃ before after, order = before ++ f :: after ∧ ∀ g ∈ after, g ∈ h.skipped

namespace RuleSet

/-- Where the outcome is valid under one configuration, no field was skipped, and under every other
one the same subject comes to the same outcome and ends up the same. -/
theorem validate_of_isValid {cycle? : Graph → Option Nat} {vs : List Validator}
    (hb : ∀ v ∈ vs, v.IsBuilt) {a : RuleSetConfig} {rs : RuleSet}
    (hrs : ofValidatorsBy cycle? vs a = .ok rs) {subject subject' : Value} {o : Outcome}
    (h : rs.validate subject = (.ok o, subject')) (hv : o.isValid = true) (b : RuleSetConfig) :
    o.skipped = [] ∧ o.stopAll = false ∧ Entries.keys o.results = rs.evaluationOrder ∧
      ∃ rs', ofValidatorsBy cycle? vs b = .ok rs' ∧ rs'.validate subject = (.ok o, subject') := by
  have hbuilt := (ofValidatorsBy_withConfig hrs b).2
  obtain ⟨hd, rfl⟩ := of_ofValidatorsBy_eq_ok hb hrs
  obtain ⟨ctx', hrun, rfl⟩ := validate_eq_iff.1 h
  have hfresh : Outcome.IsFresh {} ((inOrder vs).map Validator.field) := inOrder_nodup hd
  obtain ⟨ds, hr, hds, rfl⟩ := RuleSetConfig.completes_of_isValid hfresh rfl hrun hv
  refine ⟨Outcome.skipped_recordAll {} ds, ?_, ?_, _, hbuilt, ?_⟩
  · rw [Outcome.stopAll_recordAll, Bool.false_or, List.any_eq_false]
    intro e he
    simp [hds e he]
  · have hresults := Outcome.results_recordAll (hr.map_field ▸ hfresh)
    rw [hresults, evaluationOrder, ← hr.map_field, Entries.keys]
    simp
  · exact validate_eq_iff.2 ⟨ctx', RuleSetConfig.evaluate_of_valid hr hds rfl, rfl⟩

/-- A name that is trimmed to be short enough is so under all policies. -/
theorem short_name_isValid :
    let vs := Builder.validators {} [("user.name", ["STR", "HARDTRIM", "LEN:1-2:LONG"]),
      ("user", ["OBJ", "REQ:NO_USER", "STOPALL"])]
    let subject : Value := .object [("user", .object [("name", .scalar (.string " Al "))])]
    (∀ v ∈ vs, v.IsBuilt) ∧ ∃ rs rs' o subject',
      ofValidatorsBy Graph.stuck? vs ⟨.halt, .skipOnFailure⟩ = .ok rs ∧
      rs.validate subject = (.ok o, subject') ∧ o.isValid = true ∧
      o.skipped = [] ∧ Entries.keys o.results = ["user", "user.name"] ∧
      ofValidatorsBy Graph.stuck? vs {} = .ok rs' ∧ rs'.validate subject = (.ok o, subject') := by
  intro vs subject
  have hb : ∀ v ∈ vs, v.IsBuilt := fun v hv => Builder.isBuilt_of_mem_validators hv
  have hrs : ofValidatorsBy Graph.stuck? vs ⟨.halt, .skipOnFailure⟩ =
      .ok ⟨inOrder vs, ⟨.halt, .skipOnFailure⟩⟩ :=
    ofValidatorsBy_of_nodup hb (by decide +kernel) (by decide +kernel) _
  have horder : evaluationOrder ⟨inOrder vs, ⟨.halt, .skipOnFailure⟩⟩ = ["user", "user.name"] := by
    decide +kernel
  obtain ⟨o, subject', h, hv⟩ := exists_outcome ⟨inOrder vs, ⟨.halt, .skipOnFailure⟩⟩
    subject Outcome.isValid true (by decide +kernel)
  obtain ⟨hskip, _, hkeys, rs', hrs', h'⟩ := validate_of_isValid hb hrs h hv {}
  exact ⟨hb, _, rs', o, subject', hrs, h, hv, hskip, hkeys.trans horder, hrs', h'⟩

/-- Halting cuts the outcome of signalling off behind the field that stops it. It fails only as
signalling does, and where signalling alone fails it was stopped. -/
theorem validate_halt {cycle? : Graph → Option Nat} {vs : List Validator}
    (hb : ∀ v ∈ vs, v.IsBuilt) {d : DependencyPolicy} {rs : RuleSet}
    (hrs : ofValidatorsBy cycle? vs ⟨.signal, d⟩ = .ok rs) :
    ∃ rh, ofValidatorsBy cycle? vs ⟨.halt, d⟩ = .ok rh ∧ ∀ subject,
      (∀ o s, rs.validate subject = (.ok o, s) →
        ∃ h t, rh.validate subject = (.ok h, t) ∧ h.IsCutOff o rs.evaluationOrder) ∧
      (∀ e t, rh.validate subject = (.error e, t) → rs.validate subject = (.error e, t)) ∧
      (∀ e s h t, rs.validate subject = (.error e, s) → rh.validate subject = (.ok h, t) →
        h.stopAll = true) := by
  refine ⟨_, (ofValidatorsBy_withConfig hrs ⟨.halt, d⟩).2, fun subject => ?_⟩
  obtain ⟨hd, rfl⟩ := of_ofValidatorsBy_eq_ok hb hrs
  have hfresh : Outcome.IsFresh {} ((inOrder vs).map Validator.field) := inOrder_nodup hd
  simp only [validate_eq_iff]
  cases RuleSetConfig.haltsAlike d [] { subject := subject } hfresh rfl with
  | unstopped heq hs =>
    rw [heq]
    refine ⟨?_, fun e t h => h, ?_⟩
    · rintro o s ⟨ctx', h, rfl⟩
      have ho := hs o ctx' h
      exact ⟨o, _, ⟨ctx', h, rfl⟩, rfl, rfl, fun _ => rfl, fun hn => by simp [ho] at hn⟩
    · rintro e s h t ⟨ctx', he, _⟩ ⟨ctx₁, h, _⟩
      rw [he] at h
      simp at h
  | stopped earlier v left failed o' ctx' hvs ho hh hs =>
    rw [hh, hs]
    refine ⟨?_, ?_, ?_⟩
    · rintro o s ⟨ctx₁, h, rfl⟩
      obtain ⟨later, hresults⟩ := RuleSetConfig.results_of_evaluate ho.fresh h
      obtain ⟨hstop, hby⟩ := RuleSetConfig.stoppedBy_of_evaluate ho.stopAll h
      obtain ⟨rs, verdict, hlast⟩ := ho.last
      refine ⟨_, _, ⟨ctx', rfl, rfl⟩, ?_, hby.symm, fun hn => by simp [hstop] at hn, fun _ => ?_⟩
      · exact ho.stopAll.trans hstop.symm
      · refine ⟨v.field, rs, verdict, later, hby.trans ho.stoppedBy, ?_, hlast, ?_⟩
        · rw [hresults, hlast, List.append_assoc]
          rfl
        · refine ⟨earlier.map Validator.field, left.map Validator.field, ?_, fun g hg => ?_⟩
          · rw [evaluationOrder, hvs, List.map_append, List.map_cons]
          · exact List.mem_append_right _ hg
    · rintro e t ⟨ctx₁, h, _⟩
      simp at h
    · rintro e s h t _ ⟨ctx₁, h', _⟩
      obtain rfl := Except.ok.inj (Prod.mk.inj h').1
      exact ho.stopAll

/-- A missing user stops the evaluation in front of a field below it, which is skipped either way,
and in front of a token that is missing too or of the wrong kind. A user of the wrong kind is an
error either way. -/
theorem missing_user_halt :
    let vs := Builder.validators {} [("user.name", ["STR"]),
      ("user", ["OBJ", "REQ:NO_USER", "STOPALL"]), ("token", ["STR", "REQ:NO_TOKEN"])]
    let badToken : Value := .object [("token", .scalar (.int 3))]
    let badUser : Value := .object [("user", .scalar (.int 3))]
    (∀ v ∈ vs, v.IsBuilt) ∧ ∃ rs rh,
      ofValidatorsBy Graph.stuck? vs ⟨.signal, .skipOnFailure⟩ = .ok rs ∧
      ofValidatorsBy Graph.stuck? vs ⟨.halt, .skipOnFailure⟩ = .ok rh ∧
      (∃ o s h t, rs.validate (.object []) = (.ok o, s) ∧ rh.validate (.object []) = (.ok h, t) ∧
        Entries.keys o.results = ["user", "token"] ∧ h.IsCutOff o rs.evaluationOrder) ∧
      (∃ e s h t, rs.validate badToken = (.error e, s) ∧ rh.validate badToken = (.ok h, t) ∧
        h.stopAll = true) ∧
      ∃ e t, rh.validate badUser = (.error e, t) ∧ rs.validate badUser = (.error e, t) := by
  intro vs badToken badUser
  have hb : ∀ v ∈ vs, v.IsBuilt := fun v hv => Builder.isBuilt_of_mem_validators hv
  have hbuilt : ∀ c, ofValidatorsBy Graph.stuck? vs c = .ok ⟨inOrder vs, c⟩ :=
    ofValidatorsBy_of_nodup hb (by decide +kernel) (by decide +kernel)
  obtain ⟨rh, hrh, hall⟩ := validate_halt hb (hbuilt ⟨.signal, .skipOnFailure⟩)
  obtain rfl := Except.ok.inj ((hbuilt _).symm.trans hrh)
  refine ⟨hb, _, _, hbuilt _, hbuilt _, ?_, ?_, ?_⟩
  · obtain ⟨o, s, h, hkeys⟩ := exists_outcome ⟨inOrder vs, ⟨.signal, .skipOnFailure⟩⟩
      (.object []) (fun o => Entries.keys o.results) ["user", "token"] (by decide +kernel)
    obtain ⟨o', t, h', hcut⟩ := (hall _).1 o s h
    exact ⟨o, s, o', t, h, h', hkeys, hcut⟩
  · obtain ⟨s, hs⟩ : ∃ s, validate ⟨inOrder vs, ⟨.signal, .skipOnFailure⟩⟩ badToken =
        (.error (.wrongKind "token" .string (.scalar .int)), s) :=
      ⟨_, Prod.ext (by decide +kernel) rfl⟩
    obtain ⟨h, t, hh, _⟩ := exists_outcome ⟨inOrder vs, ⟨.halt, .skipOnFailure⟩⟩
      badToken Outcome.skipped ["user.name", "token"] (by decide +kernel)
    exact ⟨_, s, h, t, hs, hh, (hall badToken).2.2 _ s h t hs hh⟩
  · obtain ⟨t, hh⟩ : ∃ t, validate ⟨inOrder vs, ⟨.halt, .skipOnFailure⟩⟩ badUser =
        (.error (.wrongKind "user" .object (.scalar .int)), t) :=
      ⟨_, Prod.ext (by decide +kernel) rfl⟩
    exact ⟨_, t, hh, (hall badUser).2.1 _ t hh⟩

end RuleSet
end FieldRules

import FieldRules.Proofs.EvaluationOrder
import FieldRules.RuleSet.Evaluate

/-! Every field of a rule set has its result or is skipped, and is skipped for a reason that shows in
the results. -/
namespace FieldRules

namespace Outcome

/-- The field has a result, with codes. -/
def hasFailed (o : Outcome) (field : String) : Bool := (o.find? field).any fun v => !v.isValid

@[simp] theorem hasFailed_skip (o : Outcome) (f g : String) :
    (o.skip g).hasFailed f = o.hasFailed f := rfl

theorem hasFailed_record_self (o : Outcome) (v : Validator) (verdict : Verdict) :
    (o.record v verdict).hasFailed v.field = !verdict.isValid := by
  simp [hasFailed, find?]

theorem hasFailed_record_of_ne (o : Outcome) {v : Validator} (verdict : Verdict) {f : String}
    (h : v.field ≠ f) : (o.record v verdict).hasFailed f = o.hasFailed f := by
  simp [hasFailed, find?, Entries.get?_put_of_ne h]

theorem mem_keys_of_hasFailed {o : Outcome} {f : String} (h : o.hasFailed f = true) :
    f ∈ Entries.keys o.results := by
  rw [← Entries.get?_isSome_iff]
  cases hf : Entries.get? f o.results with
  | none => simp [hasFailed, find?, hf] at h
  | some v => rfl

end Outcome

namespace RuleSetConfig

/-- The reasons to skip a field: an earlier stopping field failed, or one above it. -/
def Excuses (c : RuleSetConfig) (vs : List Validator) (o : Outcome) (v : Validator) : Prop :=
  (c.stopAll = .halt ∧ ∃ w ∈ vs, w.rule.stopAll = true ∧ o.hasFailed w.field = true ∧
    (vs.map Validator.field).idxOf w.field < (vs.map Validator.field).idxOf v.field) ∨
  (c.dependencies = .skipOnFailure ∧ ∃ w ∈ vs, IsDotPrefix w.field v.field ∧
    o.hasFailed w.field = true)

/-- The fields of an evaluation so far are accounted for. -/
structure Accounts (c : RuleSetConfig) (done : List Validator) (failed : List String)
    (o : Outcome) : Prop where
  results : (Entries.keys o.results).Sublist (done.map Validator.field)
  skipped : o.skipped.Sublist (done.map Validator.field)
  once : (Entries.keys o.results ++ o.skipped).Perm (done.map Validator.field)
  excused : ∀ v ∈ done, v.field ∈ o.skipped ↔ c.Excuses done o v
  stoppedBy : o.stoppedBy =
    (done.find? fun w => w.rule.stopAll && o.hasFailed w.field).map Validator.field
  stopAll : o.stopAll = o.stoppedBy.isSome
  failed : c.halts o = false → ∀ f, f ∈ failed ↔ o.hasFailed f = true ∨ f ∈ o.skipped

theorem accounts_start (c : RuleSetConfig) : c.Accounts [] [] {} where
  results := .slnil
  skipped := .slnil
  once := .refl _
  excused := by simp
  stoppedBy := rfl
  stopAll := rfl
  failed := by simp [Outcome.hasFailed, Outcome.find?, Entries.get?]

/-- A validator that comes next: its field is new, and no earlier one is written below it. -/
structure IsNext (done : List Validator) (u : Validator) : Prop where
  field_not_mem : u.field ∉ done.map Validator.field
  not_above : ∀ v ∈ done, ¬ IsDotPrefix u.field v.field

theorem IsNext.field_ne {done : List Validator} {u w : Validator} (h : IsNext done u)
    (hw : w ∈ done) : u.field ≠ w.field :=
  fun he => h.field_not_mem (he ▸ List.mem_map_of_mem hw)

section
variable {c : RuleSetConfig} {done : List Validator} {failed : List String} {o o' : Outcome}
  {u : Validator}

/-- The reasons for an earlier field stay the same. -/
theorem excuses_concat_iff (hu : IsNext done u)
    (ho : ∀ w ∈ done, o'.hasFailed w.field = o.hasFailed w.field) {v : Validator} (hv : v ∈ done) :
    c.Excuses (done ++ [u]) o' v ↔ c.Excuses done o v := by
  have hidx : ∀ w ∈ done, ((done ++ [u]).map Validator.field).idxOf w.field =
      (done.map Validator.field).idxOf w.field := fun w hw => by
    rw [List.map_append, List.idxOf_append_of_mem (List.mem_map_of_mem hw)]
  have hlast : (done.map Validator.field).idxOf v.field <
      ((done ++ [u]).map Validator.field).idxOf u.field := by
    rw [List.map_append, List.idxOf_append_of_notMem hu.field_not_mem]
    exact Nat.lt_add_right _ (List.idxOf_lt_length_of_mem (List.mem_map_of_mem hv))
  simp only [Excuses, List.mem_append, List.mem_singleton]
  refine or_congr (and_congr_right fun _ => ?_) (and_congr_right fun _ => ?_)
  · constructor
    · rintro ⟨w, hw | rfl, hs, hf, hlt⟩
      · exact ⟨w, hw, hs, ho w hw ▸ hf, by rwa [hidx w hw, hidx v hv] at hlt⟩
      · rw [hidx v hv] at hlt
        omega
    · rintro ⟨w, hw, hs, hf, hlt⟩
      exact ⟨w, .inl hw, hs, (ho w hw).trans hf, by rwa [hidx w hw, hidx v hv]⟩
  · constructor
    · rintro ⟨w, hw | rfl, hp, hf⟩
      · exact ⟨w, hw, hp, ho w hw ▸ hf⟩
      · exact absurd hp (hu.not_above v hv)
    · rintro ⟨w, hw, hp, hf⟩
      exact ⟨w, .inl hw, hp, (ho w hw).trans hf⟩

/-- The reasons for the next field are earlier fields that failed. -/
theorem excuses_last_iff (hu : IsNext done u)
    (ho : ∀ w ∈ done, o'.hasFailed w.field = o.hasFailed w.field) :
    c.Excuses (done ++ [u]) o' u ↔
      (c.stopAll = .halt ∧ ∃ w ∈ done, w.rule.stopAll = true ∧ o.hasFailed w.field = true) ∨
      (c.dependencies = .skipOnFailure ∧ ∃ w ∈ done, IsDotPrefix w.field u.field ∧
        o.hasFailed w.field = true) := by
  have hlast : ∀ w ∈ done, ((done ++ [u]).map Validator.field).idxOf w.field <
      ((done ++ [u]).map Validator.field).idxOf u.field := fun w hw => by
    rw [List.map_append, List.idxOf_append_of_notMem hu.field_not_mem,
      List.idxOf_append_of_mem (List.mem_map_of_mem hw)]
    exact Nat.lt_add_right _ (List.idxOf_lt_length_of_mem (List.mem_map_of_mem hw))
  simp only [Excuses, List.mem_append, List.mem_singleton]
  refine or_congr (and_congr_right fun _ => ?_) (and_congr_right fun _ => ?_)
  · constructor
    · rintro ⟨w, hw | rfl, hs, hf, hlt⟩
      · exact ⟨w, hw, hs, ho w hw ▸ hf⟩
      · omega
    · rintro ⟨w, hw, hs, hf⟩
      exact ⟨w, .inl hw, hs, (ho w hw).trans hf, hlast w hw⟩
  · constructor
    · rintro ⟨w, hw | rfl, hp, hf⟩
      · exact ⟨w, hw, hp, ho w hw ▸ hf⟩
      · exact absurd hp (not_isDotPrefix_self _)
    · rintro ⟨w, hw, hp, hf⟩
      exact ⟨w, .inl hw, hp, (ho w hw).trans hf⟩

theorem Accounts.mem_of_mem_skipped (h : c.Accounts done failed o) {f : String}
    (hf : f ∈ o.skipped) : f ∈ done.map Validator.field :=
  h.skipped.subset hf

theorem Accounts.not_hasFailed (h : c.Accounts done failed o) (hu : IsNext done u) :
    o.hasFailed u.field = false := by
  by_contra hn
  have := Outcome.mem_keys_of_hasFailed (by simpa using hn)
  exact hu.field_not_mem (h.results.subset this)

/-- A field skipped for a reason is accounted for. -/
theorem Accounts.skip (h : c.Accounts done failed o) (hu : IsNext done u)
    (he : c.Excuses (done ++ [u]) (o.skip u.field) u) {failed' : List String}
    (hf : c.halts o = false → failed' = u.field :: failed) :
    c.Accounts (done ++ [u]) failed' (o.skip u.field) where
  results := by
    rw [List.map_append]
    exact h.results.trans (List.sublist_append_left _ _)
  skipped := by
    rw [List.map_append]
    exact h.skipped.append (List.Sublist.refl [u.field])
  once := by
    rw [List.map_append]
    simpa [Outcome.skip] using h.once.append_right [u.field]
  excused := by
    intro v hv
    rcases List.mem_append.1 hv with hv | hv
    · rw [excuses_concat_iff hu (fun w _ => Outcome.hasFailed_skip o _ _) hv, ← h.excused v hv]
      simp [Outcome.skip, (hu.field_ne hv).symm]
    · obtain rfl := List.mem_singleton.1 hv
      exact iff_of_true (by simp [Outcome.skip]) he
  stoppedBy := by
    have hn := h.not_hasFailed hu
    simp only [Outcome.hasFailed_skip, List.find?_append]
    rw [show (o.skip u.field).stoppedBy = o.stoppedBy from rfl, h.stoppedBy]
    cases done.find? fun w => w.rule.stopAll && o.hasFailed w.field with
    | none => simp [hn]
    | some w => rfl
  stopAll := h.stopAll
  failed := by
    intro hh f
    have hf' := hf hh
    subst hf'
    simp only [List.mem_cons, h.failed hh, Outcome.skip, List.mem_append, List.not_mem_nil, or_false,
      Outcome.hasFailed, Outcome.find?]
    tauto

theorem Accounts.hasFailed_record (hu : IsNext done u) (verdict : Verdict) {w : Validator}
    (hw : w ∈ done) : (o.record u verdict).hasFailed w.field = o.hasFailed w.field :=
  Outcome.hasFailed_record_of_ne o verdict (hu.field_ne hw)

/-- What stopped the evaluation stays; otherwise it is the new field, if that may stop and fails. -/
theorem Accounts.stoppedBy_record (h : c.Accounts done failed o) (hu : IsNext done u)
    (verdict : Verdict) : (o.record u verdict).stoppedBy = ((done ++ [u]).find? fun w =>
      w.rule.stopAll && (o.record u verdict).hasFailed w.field).map Validator.field := by
  have hfind : done.find? (fun w => w.rule.stopAll && (o.record u verdict).hasFailed w.field) =
      done.find? fun w => w.rule.stopAll && o.hasFailed w.field := by
    rw [← List.head?_filter, ← List.head?_filter,
      List.filter_congr fun w hw => by rw [hasFailed_record hu verdict hw]]
  have hstop : o.stopAll =
      (done.find? fun w => w.rule.stopAll && o.hasFailed w.field).isSome := by
    rw [h.stopAll, h.stoppedBy, Option.isSome_map]
  rw [Outcome.stoppedBy_record, List.find?_append, hfind, h.stoppedBy, hstop]
  cases done.find? fun w => w.rule.stopAll && o.hasFailed w.field with
  | some w => simp
  | none =>
    by_cases hs : (u.rule.stopAll && !verdict.isValid) = true
    · simp [Outcome.hasFailed_record_self, hs]
    · simp [Outcome.hasFailed_record_self, hs]

theorem Accounts.mem_failed_record (h : c.Accounts done failed o) (hu : IsNext done u)
    (hh : c.halts o = false) (verdict : Verdict) (f : String) :
    f ∈ (if verdict.isValid then failed else u.field :: failed) ↔
      (o.record u verdict).hasFailed f = true ∨ f ∈ o.skipped := by
  by_cases hf : u.field = f
  · subst hf
    have hns : u.field ∉ o.skipped := fun hm => hu.field_not_mem (h.mem_of_mem_skipped hm)
    have hnf : u.field ∉ failed := by
      rw [h.failed hh]
      simp [h.not_hasFailed hu, hns]
    rw [Outcome.hasFailed_record_self]
    cases verdict.isValid <;> simp [hnf, hns]
  · rw [Outcome.hasFailed_record_of_ne o verdict hf, ← h.failed hh]
    cases verdict.isValid <;> simp [Ne.symm hf]

/-- A field evaluated without a reason to skip it is accounted for. -/
theorem Accounts.record (h : c.Accounts done failed o) (hu : IsNext done u) {verdict : Verdict}
    (he : ¬ c.Excuses (done ++ [u]) (o.record u verdict) u) (hh : c.halts o = false) :
    c.Accounts (done ++ [u]) (if verdict.isValid then failed else u.field :: failed)
      (o.record u verdict) := by
  have hk : u.field ∉ Entries.keys o.results := fun hm => hu.field_not_mem (h.results.subset hm)
  have hkeys : Entries.keys (o.record u verdict).results = Entries.keys o.results ++ [u.field] := by
    rw [Outcome.results_record, Entries.put_of_not_mem hk]
    simp [Entries.keys]
  refine ⟨?_, ?_, ?_, ?_, h.stoppedBy_record hu verdict, ?_, ?_⟩
  · rw [hkeys, List.map_append]
    exact h.results.append (List.Sublist.refl [u.field])
  · rw [Outcome.skipped_record, List.map_append]
    exact h.skipped.trans (List.sublist_append_left _ _)
  · rw [hkeys, Outcome.skipped_record, List.map_append, List.append_assoc]
    exact (List.perm_append_comm.append_left _).trans
      (by simpa [← List.append_assoc] using h.once.append_right [u.field])
  · intro v hv
    rw [Outcome.skipped_record]
    rcases List.mem_append.1 hv with hv | hv
    · rw [excuses_concat_iff hu (fun w hw => hasFailed_record hu verdict hw) hv, h.excused v hv]
    · obtain rfl := List.mem_singleton.1 hv
      exact iff_of_false (fun hm => hu.field_not_mem (h.mem_of_mem_skipped hm)) he
  · rw [Outcome.stopAll_record, Outcome.stoppedBy_record, h.stopAll]
    cases o.stoppedBy with
    | some f => simp
    | none => cases u.rule.stopAll && !verdict.isValid <;> simp
  · intro _ f
    rw [Outcome.skipped_record]
    exact h.mem_failed_record hu hh verdict f

/-- A stopping field failed exactly where the evaluation is told to stop. -/
theorem Accounts.stopAll_iff (h : c.Accounts done failed o) :
    o.stopAll = true ↔ ∃ w ∈ done, w.rule.stopAll = true ∧ o.hasFailed w.field = true := by
  rw [h.stopAll, h.stoppedBy, Option.isSome_map, List.find?_isSome]
  simp only [Bool.and_eq_true]

/-- The field that is skipped for one that failed, or was skipped itself, has a reason. -/
theorem Accounts.excuses_of_mem_failed (h : c.Accounts done failed o) (hu : IsNext done u)
    (hh : c.halts o = false) (hs : c.dependencies = .skipOnFailure) {d : String}
    (hd : IsDotPrefix d u.field) (hf : d ∈ failed) :
    c.Excuses (done ++ [u]) (o.skip u.field) u := by
  rw [excuses_last_iff hu fun w _ => Outcome.hasFailed_skip o w.field u.field]
  rcases (h.failed hh d).1 hf with hf | hf
  · obtain ⟨w, hw, rfl⟩ := List.mem_map.1 (h.results.subset (Outcome.mem_keys_of_hasFailed hf))
    exact .inr ⟨hs, w, hw, hd, hf⟩
  · obtain ⟨w, hw, rfl⟩ := List.mem_map.1 (h.mem_of_mem_skipped hf)
    rcases (h.excused w hw).1 hf with ⟨hc, x, hx, hxs, hxf, _⟩ | ⟨_, x, hx, hxw, hxf⟩
    · exact .inl ⟨hc, x, hx, hxs, hxf⟩
    · exact .inr ⟨hs, x, hx, isDotPrefix_trans hxw hd, hxf⟩

end

/-- What is evaluated in an order that accepted rule sets have is accounted for. -/
theorem Accounts.evaluate {c : RuleSetConfig} {vs done : List Validator} {failed : List String}
    {o o' : Outcome} {ctx ctx' : Context} (h : c.Accounts done failed o)
    (hb : ∀ v ∈ done ++ vs, v.IsBuilt) (hd : ((done ++ vs).map Validator.field).Nodup)
    (hp : (done ++ vs).Pairwise fun v w => ¬ IsDotPrefix w.field v.field)
    (he : c.evaluate vs failed o ctx = (.ok o', ctx')) :
    ∃ failed', c.Accounts (done ++ vs) failed' o' := by
  induction vs generalizing done failed o ctx with
  | nil =>
    obtain ⟨rfl, rfl⟩ := by simpa [RuleSetConfig.evaluate] using he
    exact ⟨failed, by simpa using h⟩
  | cons u vs ih =>
    have hu : IsNext done u := by
      refine ⟨?_, fun v hv => (List.pairwise_append.1 hp).2.2 v hv u (by simp)⟩
      rw [List.map_append, List.map_cons, List.nodup_middle] at hd
      exact fun hm => (List.nodup_cons.1 hd).1 (List.mem_append_left _ hm)
    have hdeps : ∀ w ∈ done, (w.field ∈ u.dependsOn ↔ IsDotPrefix w.field u.field) := fun w hw =>
      Validator.mem_dependsOn_iff (hb u (by simp)) (hb w (by simp [hw]))
    have hassoc : done ++ u :: vs = done ++ [u] ++ vs := by simp
    rw [hassoc] at hb hd hp ⊢
    rw [RuleSetConfig.evaluate] at he
    cases hh : c.halts o with
    | true =>
      simp only [hh, if_true] at he
      obtain ⟨hc, hs⟩ := by simpa [halts] using hh
      have hex : c.Excuses (done ++ [u]) (o.skip u.field) u :=
        (excuses_last_iff hu fun w _ => Outcome.hasFailed_skip o w.field u.field).2
          (.inl ⟨hc, h.stopAll_iff.1 hs⟩)
      exact ih (h.skip hu hex fun hn => by simp [hh] at hn) hb hd hp he
    | false =>
      simp only [hh, Bool.false_eq_true, if_false] at he
      cases hk : c.blocks u failed with
      | true =>
        simp only [hk, if_true] at he
        obtain ⟨hc, d, hdu, hdf⟩ := by simpa [blocks] using hk
        have hdone : d ∈ done.map Validator.field := by
          rcases (h.failed hh d).1 hdf with hf | hf
          · exact h.results.subset (Outcome.mem_keys_of_hasFailed hf)
          · exact h.mem_of_mem_skipped hf
        obtain ⟨w, hw, rfl⟩ := List.mem_map.1 hdone
        have hex := h.excuses_of_mem_failed hu hh hc ((hdeps w hw).1 hdu) hdf
        exact ih (h.skip hu hex fun _ => rfl) hb hd hp he
      | false =>
        simp only [hk, Bool.false_eq_true, if_false] at he
        split at he
        · simp at he
        · rename_i verdict ctx₁ hv
          refine ih (h.record hu ?_ hh) hb hd hp he
          rw [excuses_last_iff hu fun w hw =>
            Outcome.hasFailed_record_of_ne o verdict (hu.field_ne hw)]
          rintro (⟨hc, hs⟩ | ⟨hc, w, hw, hwu, hwf⟩)
          · simp [halts, hc, h.stopAll_iff.2 hs] at hh
          · have hdf := (h.failed hh w.field).2 (.inl hwf)
            have : c.blocks u failed = true := by
              simp only [blocks, hc, decide_true, Bool.true_and, List.any_eq_true,
                List.contains_iff_mem]
              exact ⟨w.field, (hdeps w hw).2 hwu, hdf⟩
            rw [hk] at this
            exact absurd this (by simp)

end RuleSetConfig

namespace RuleSet

/-- Every field of an accepted rule set has a result or is skipped, once and in order. It is skipped
exactly where an earlier stopping field failed and the policy is to halt, or a field above it failed
and the policy is to skip. The evaluation was stopped by the first stopping field that failed. -/
theorem validate_accounts {cycle? : Graph → Option Nat} {vs : List Validator}
    (hb : ∀ v ∈ vs, v.IsBuilt) {config : RuleSetConfig} {rs : RuleSet}
    (hrs : ofValidatorsBy cycle? vs config = .ok rs) {subject subject' : Value} {o : Outcome}
    (h : rs.validate subject = (.ok o, subject')) :
    rs.evaluationOrder.Nodup ∧
    (Entries.keys o.results ++ o.skipped).Perm rs.evaluationOrder ∧
    (Entries.keys o.results).Sublist rs.evaluationOrder ∧ o.skipped.Sublist rs.evaluationOrder ∧
    (∀ v ∈ rs.validators, v.field ∈ o.skipped ↔
      (config.stopAll = .halt ∧ ∃ w ∈ rs.validators, w.rule.stopAll = true ∧
        o.hasFailed w.field = true ∧
        rs.evaluationOrder.idxOf w.field < rs.evaluationOrder.idxOf v.field) ∨
      (config.dependencies = .skipOnFailure ∧ ∃ w ∈ rs.validators,
        IsDotPrefix w.field v.field ∧ o.hasFailed w.field = true)) ∧
    (o.stopAll = true ↔
      ∃ w ∈ rs.validators, w.rule.stopAll = true ∧ o.hasFailed w.field = true) ∧
    o.stoppedBy =
      (rs.validators.find? fun w => w.rule.stopAll && o.hasFailed w.field).map Validator.field := by
  obtain ⟨hd, rfl⟩ := of_ofValidatorsBy_eq_ok hb hrs
  have hb' : ∀ v ∈ inOrder vs, v.IsBuilt := fun v hv => hb v (mem_inOrder.1 hv)
  have hd' := inOrder_nodup hd
  have hp : (inOrder vs).Pairwise fun v w => ¬ IsDotPrefix w.field v.field := by
    refine (inOrder_pairwise hb hd).imp_of_mem fun hv hw hn hpre => hn ?_
    exact (FieldPath.isDotPrefix_text_iff (hb' _ hv).plain (hb' _ hw).plain).1 hpre
  obtain ⟨failed, hacc⟩ : ∃ failed, config.Accounts (inOrder vs) failed o := by
    simp only [validate, Prod.mk.injEq] at h
    exact (RuleSetConfig.accounts_start config).evaluate hb' hd' hp (Prod.ext h.1 rfl)
  exact ⟨hd', hacc.once, hacc.results, hacc.skipped, hacc.excused, hacc.stopAll_iff, hacc.stoppedBy⟩

/-- A field is skipped for one two levels above it that is missing; the one between is skipped too. -/
theorem missing_parent_accounts :
    let vs := Builder.validators {} [("a.b.c", ["STR"]), ("a", ["OBJ", "REQ:A_MISSING"]),
      ("a.b", ["OBJ"]), ("d", ["STR", "STOPALL"])]
    (∀ v ∈ vs, v.IsBuilt) ∧ ∃ rs o subject',
      ofValidatorsBy Graph.stuck? vs ⟨.signal, .skipOnFailure⟩ = .ok rs ∧
      rs.validate (.object []) = (.ok o, subject') ∧ o.skipped = ["a.b", "a.b.c"] ∧
      (Entries.keys o.results ++ o.skipped).Perm rs.evaluationOrder ∧
      o.stoppedBy = (rs.validators.find? fun w => w.rule.stopAll && o.hasFailed w.field).map
        Validator.field := by
  intro vs
  have hb : ∀ v ∈ vs, v.IsBuilt := fun v hv => Builder.isBuilt_of_mem_validators hv
  have hrs : ofValidatorsBy Graph.stuck? vs ⟨.signal, .skipOnFailure⟩ =
      .ok ⟨inOrder vs, ⟨.signal, .skipOnFailure⟩⟩ :=
    ofValidatorsBy_of_nodup hb (by decide +kernel) (by decide +kernel) _
  have hskip : ((RuleSet.validate ⟨inOrder vs, ⟨.signal, .skipOnFailure⟩⟩ (.object [])).1.toOption.map
      Outcome.skipped) = some ["a.b", "a.b.c"] := by decide +kernel
  cases h : RuleSet.validate ⟨inOrder vs, ⟨.signal, .skipOnFailure⟩⟩ (.object []) with
  | mk result subject' =>
    cases result with
    | error e => simp [h, Except.toOption] at hskip
    | ok o =>
      obtain ⟨_, honce, _, _, _, _, hstop⟩ := validate_accounts hb hrs h
      exact ⟨hb, _, o, subject', hrs, h, by simpa [h, Except.toOption] using hskip, honce, hstop⟩

end RuleSet
end FieldRules

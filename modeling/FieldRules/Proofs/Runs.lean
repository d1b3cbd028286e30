import FieldRules.RuleSet.Evaluate
import Mathlib.Data.List.Nodup

/-! Runs of validators that all come to a verdict. Where nothing is skipped, an evaluation is such a
run, and its outcome records the verdicts. -/
namespace FieldRules

/-- The validators come to these verdicts, each in the context that the one before leaves. -/
inductive Completes : List Validator → Context → List (Validator × Verdict) → Context → Prop
  | nil (c : Context) : Completes [] c [] c
  | cons {v : Validator} {vs : List Validator} {d : Verdict} {ds : List (Validator × Verdict)}
      {c c₁ c₂ : Context} (h : v.validate c = (.ok d, c₁)) (hs : Completes vs c₁ ds c₂) :
      Completes (v :: vs) c ((v, d) :: ds) c₂

theorem Completes.map_fst {vs : List Validator} {c c' : Context}
    {ds : List (Validator × Verdict)} (h : Completes vs c ds c') : ds.map Prod.fst = vs := by
  induction h with
  | nil => rfl
  | cons _ _ ih => rw [List.map_cons, ih]

theorem Completes.map_field {vs : List Validator} {c c' : Context}
    {ds : List (Validator × Verdict)} (h : Completes vs c ds c') :
    (ds.map fun e => e.1.field) = vs.map Validator.field := by
  rw [← h.map_fst, List.map_map]
  rfl

namespace Outcome

def recordAll (o : Outcome) (ds : List (Validator × Verdict)) : Outcome :=
  ds.foldl (fun o e => o.record e.1 e.2) o

@[simp] theorem recordAll_nil (o : Outcome) : o.recordAll [] = o := rfl

@[simp] theorem recordAll_cons (o : Outcome) (e : Validator × Verdict)
    (ds : List (Validator × Verdict)) :
    o.recordAll (e :: ds) = (o.record e.1 e.2).recordAll ds := rfl

theorem stopAll_recordAll (o : Outcome) (ds : List (Validator × Verdict)) :
    (o.recordAll ds).stopAll =
      (o.stopAll || ds.any fun e => e.1.rule.stopAll && !e.2.isValid) := by
  induction ds generalizing o with
  | nil => simp
  | cons e ds ih => rw [recordAll_cons, ih, stopAll_record, List.any_cons, Bool.or_assoc]

/-- None of the fields has a result yet, and none stands twice. -/
def IsFresh (o : Outcome) (fields : List String) : Prop := (Entries.keys o.results ++ fields).Nodup

namespace IsFresh
variable {o : Outcome} {v : Validator} {fields : List String}

theorem results_record (h : o.IsFresh (v.field :: fields)) (verdict : Verdict) :
    (o.record v verdict).results = o.results ++ [(v.field, verdict)] := by
  have hk : v.field ∉ Entries.keys o.results := by
    intro hm
    exact (List.nodup_append.1 h).2.2 _ hm _ (by simp) rfl
  rw [Outcome.results_record, Entries.put_of_not_mem hk]

theorem record (h : o.IsFresh (v.field :: fields)) (verdict : Verdict) :
    (o.record v verdict).IsFresh fields := by
  have hkeys : Entries.keys (o.record v verdict).results = Entries.keys o.results ++ [v.field] := by
    rw [h.results_record, Entries.keys, List.map_append]
    rfl
  rw [IsFresh, hkeys, List.append_assoc]
  exact h

theorem of_sublist {fields' : List String} (h : o.IsFresh fields) (hs : fields'.Sublist fields) :
    o.IsFresh fields' :=
  List.Nodup.sublist (hs.append_left _) h

theorem skip {f : String} (h : o.IsFresh (f :: fields)) : (o.skip f).IsFresh fields :=
  h.of_sublist (List.sublist_cons_self f fields)

end IsFresh

/-- The results of distinct fields stand in the order of their recording. -/
theorem results_recordAll {o : Outcome} {ds : List (Validator × Verdict)}
    (h : o.IsFresh (ds.map fun e => e.1.field)) :
    (o.recordAll ds).results = o.results ++ ds.map fun e => (e.1.field, e.2) := by
  induction ds generalizing o with
  | nil => simp
  | cons e ds ih => rw [recordAll_cons, ih (h.record e.2), h.results_record, List.append_assoc]; rfl

@[simp] theorem skipped_recordAll (o : Outcome) (ds : List (Validator × Verdict)) :
    (o.recordAll ds).skipped = o.skipped := by
  induction ds generalizing o with
  | nil => rfl
  | cons e ds ih => rw [recordAll_cons, ih, skipped_record]

/-- Once stopped, an evaluation stays stopped by the same field. -/
theorem stoppedBy_recordAll {o : Outcome} (h : o.stopAll = true)
    (ds : List (Validator × Verdict)) : (o.recordAll ds).stoppedBy = o.stoppedBy := by
  induction ds generalizing o with
  | nil => rfl
  | cons e ds ih =>
    have hs : (o.record e.1 e.2).stopAll = true := by rw [stopAll_record, h, Bool.true_or]
    rw [recordAll_cons, ih hs, stoppedBy_record, h]
    simp

/-- The fields are skipped one after the other. -/
def skipAll (o : Outcome) (fields : List String) : Outcome :=
  { o with skipped := o.skipped ++ fields }

@[simp] theorem skipAll_nil (o : Outcome) : o.skipAll [] = o := by simp [skipAll]

@[simp] theorem skipAll_skip (o : Outcome) (f : String) (fs : List String) :
    (o.skip f).skipAll fs = o.skipAll (f :: fs) := by
  simp [skipAll, skip]

theorem record_skip (o : Outcome) (v : Validator) (verdict : Verdict) (f : String) :
    (o.skip f).record v verdict = (o.record v verdict).skip f := by
  cases ho : o.stopAll <;> cases hr : v.rule.stopAll <;> cases hv : verdict.isValid <;>
    simp [record, put, stop, skip, ho, hr, hv]

/-- It does not matter whether a field is skipped before or after verdicts on others. -/
theorem recordAll_skip (o : Outcome) (f : String) (ds : List (Validator × Verdict)) :
    (o.skip f).recordAll ds = (o.recordAll ds).skip f := by
  induction ds generalizing o with
  | nil => rfl
  | cons e ds ih => rw [recordAll_cons, recordAll_cons, record_skip, ih]

/-- The order in which the verdicts on distinct fields are recorded does not matter. -/
theorem find?_recordAll_perm {ds ds' : List (Validator × Verdict)} (hp : ds'.Perm ds)
    (hd : (ds.map fun e => e.1.field).Nodup) (f : String) :
    (recordAll {} ds').find? f = (recordAll {} ds).find? f := by
  have hempty : ∀ {es : List (Validator × Verdict)}, (es.map fun e => e.1.field).Nodup →
      (recordAll {} es).results = es.map fun e => (e.1.field, e.2) := fun he => results_recordAll he
  rw [find?, find?, hempty hd, hempty ((hp.map _).nodup_iff.2 hd)]
  refine Entries.get?_perm (hp.map _) ?_ f
  rw [Entries.keys, List.map_map]
  exact (hp.map _).nodup_iff.2 hd

theorem find?_recordAll_of_mem {ds : List (Validator × Verdict)}
    (hd : (ds.map fun e => e.1.field).Nodup) {v : Validator} {d : Verdict} (h : (v, d) ∈ ds) :
    (recordAll {} ds).find? v.field = some d := by
  have hresults : (recordAll {} ds).results = ds.map fun e => (e.1.field, e.2) :=
    results_recordAll hd
  rw [find?, hresults, Entries.get?_eq_some_iff]
  · exact List.mem_map.2 ⟨_, h, rfl⟩
  · rw [Entries.keys, List.map_map]
    exact hd

end Outcome

namespace RuleSetConfig
variable {c : RuleSetConfig} {vs : List Validator} {failed : List String} {o o' : Outcome}
  {ctx ctx' : Context}

/-- Whatever the policies, an evaluation that comes to an end is a run of the validators that are
not skipped. -/
theorem exists_completes (h : c.evaluate vs failed o ctx = (.ok o', ctx')) :
    ∃ ds skipped, Completes (ds.map Prod.fst) ctx ds ctx' ∧ (ds.map Prod.fst).Sublist vs ∧
      ds.length + skipped.length = vs.length ∧ o' = (o.recordAll ds).skipAll skipped := by
  induction vs generalizing failed o ctx with
  | nil =>
    obtain ⟨rfl, rfl⟩ := by simpa [evaluate] using h
    exact ⟨[], [], .nil ctx, .slnil, rfl, by simp⟩
  | cons v vs ih =>
    have hskip : ∀ failed', c.evaluate vs failed' (o.skip v.field) ctx = (.ok o', ctx') →
        ∃ ds skipped, Completes (ds.map Prod.fst) ctx ds ctx' ∧
          (ds.map Prod.fst).Sublist (v :: vs) ∧ ds.length + skipped.length = (v :: vs).length ∧
          o' = (o.recordAll ds).skipAll skipped := by
      intro failed' h
      obtain ⟨ds, skipped, hr, hsub, hlen, rfl⟩ := ih h
      refine ⟨ds, v.field :: skipped, hr, hsub.cons v, ?_, ?_⟩
      · simp only [List.length_cons]
        omega
      · rw [Outcome.recordAll_skip, Outcome.skipAll_skip]
    rw [evaluate] at h
    split at h
    · exact hskip _ h
    · split at h
      · exact hskip _ h
      · split at h
        · simp at h
        · rename_i verdict ctx₁ hv
          obtain ⟨ds, skipped, hr, hsub, hlen, rfl⟩ := ih h
          refine ⟨(v, verdict) :: ds, skipped, .cons hv hr, hsub.cons_cons v, ?_, rfl⟩
          simp only [List.length_cons]
          omega

/-- Where no verdict has codes, the policies make no difference. -/
theorem evaluate_of_valid {ds : List (Validator × Verdict)} (h : Completes vs ctx ds ctx')
    (hv : ∀ e ∈ ds, e.2.isValid = true) (ho : o.stopAll = false) :
    c.evaluate vs [] o ctx = (.ok (o.recordAll ds), ctx') := by
  induction h generalizing o with
  | nil ctx => rfl
  | @cons v vs d ds ctx ctx₁ ctx₂ h _ ih =>
    obtain ⟨hd, hv⟩ := List.forall_mem_cons.1 hv
    have ho' : (o.record v d).stopAll = false := by
      rw [Outcome.stopAll_record, ho, hd]
      simp
    have hgo : c.halts o = false ∧ c.blocks v [] = false := by simp [halts, blocks, ho]
    rw [evaluate, hgo.1, hgo.2]
    simp only [Bool.false_eq_true, if_false, h, hd, if_true]
    exact ih hv ho'

/-- After a halt nothing more is evaluated. -/
theorem evaluate_of_halts (h : c.halts o = true) (vs : List Validator) (failed : List String)
    (ctx : Context) :
    c.evaluate vs failed o ctx = (.ok (o.skipAll (vs.map Validator.field)), ctx) := by
  induction vs generalizing o with
  | nil => simp [evaluate]
  | cons v vs ih =>
    rw [evaluate, if_pos h, ih (o := o.skip v.field) h, Outcome.skipAll_skip, List.map_cons]

end RuleSetConfig

theorem RuleSetConfig.evaluate_eq_ok_iff {vs : List Validator} {failed : List String}
    {o o' : Outcome} {c c' : Context} :
    RuleSetConfig.evaluate ⟨.signal, .orderOnly⟩ vs failed o c = (.ok o', c') ↔
      ∃ ds, Completes vs c ds c' ∧ o' = o.recordAll ds := by
  induction vs generalizing failed o c with
  | nil =>
    rw [RuleSetConfig.evaluate]
    constructor
    · rintro ⟨⟩
      exact ⟨[], .nil _, rfl⟩
    · rintro ⟨_, ⟨⟩, rfl⟩
      rfl
  | cons v vs ih =>
    have hgo : RuleSetConfig.halts ⟨.signal, .orderOnly⟩ o = false ∧
        RuleSetConfig.blocks ⟨.signal, .orderOnly⟩ v failed = false := by
      simp [RuleSetConfig.halts, RuleSetConfig.blocks]
    rw [RuleSetConfig.evaluate, hgo.1, hgo.2]
    simp only [Bool.false_eq_true, if_false]
    cases hv : v.validate c with
    | mk result c₁ =>
      cases result with
      | error e =>
        simp only [Prod.mk.injEq, reduceCtorEq, false_and, false_iff, not_exists]
        rintro ds ⟨h, _⟩
        cases h with
        | cons h _ => simp [hv] at h
      | ok d =>
        simp only [ih]
        constructor
        · rintro ⟨ds, h, rfl⟩
          exact ⟨(v, d) :: ds, .cons hv h, rfl⟩
        · rintro ⟨ds, h, rfl⟩
          cases h with
          | cons h hs =>
            obtain ⟨rfl, rfl⟩ := by simpa [hv] using h
            exact ⟨_, hs, rfl⟩

theorem RuleSet.validate_eq_iff {rs : RuleSet} {subject subject' : Value}
    {result : Except Failure Outcome} :
    rs.validate subject = (result, subject') ↔
      ∃ ctx', rs.config.evaluate rs.validators [] {} { subject := subject } = (result, ctx') ∧
        ctx'.subject = subject' := by
  rw [RuleSet.validate, Prod.mk.injEq]
  constructor
  · rintro ⟨h, hs⟩
    exact ⟨_, Prod.ext h rfl, hs⟩
  · rintro ⟨ctx', h, hs⟩
    rw [h]
    exact ⟨rfl, hs⟩

/-- An evaluation whose outcome something is known of has come to that outcome. -/
theorem RuleSet.exists_outcome {α : Type} (rs : RuleSet) (subject : Value) (f : Outcome → α) (a : α)
    (h : (rs.validate subject).1.toOption.map f = some a) :
    ∃ o subject', rs.validate subject = (.ok o, subject') ∧ f o = a := by
  cases hv : rs.validate subject with
  | mk result subject' =>
    cases result with
    | error e => simp [hv, Except.toOption] at h
    | ok o => exact ⟨o, subject', rfl, by simpa [hv, Except.toOption] using h⟩

theorem RuleSet.validate_eq_ok_iff {vs : List Validator} {subject subject' : Value} {o : Outcome} :
    RuleSet.validate ⟨vs, ⟨.signal, .orderOnly⟩⟩ subject = (.ok o, subject') ↔
      ∃ ds c', Completes vs { subject := subject } ds c' ∧ o = Outcome.recordAll {} ds ∧
        c'.subject = subject' := by
  rw [validate_eq_iff]
  constructor
  · rintro ⟨c', h, hs⟩
    obtain ⟨ds, hr, ho⟩ := RuleSetConfig.evaluate_eq_ok_iff.1 h
    exact ⟨ds, c', hr, ho, hs⟩
  · rintro ⟨ds, c', hr, ho, hs⟩
    exact ⟨c', RuleSetConfig.evaluate_eq_ok_iff.2 ⟨ds, hr, ho⟩, hs⟩

end FieldRules

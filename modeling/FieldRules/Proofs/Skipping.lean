import FieldRules.Proofs.Accounting
import FieldRules.Proofs.DeclarationOrder
import FieldRules.Proofs.Policies

/-! Skipping the fields below those that failed. The evaluation that skips follows the one that does
not: what either may write into the subject and the other does not stands below a field that
failed, and nothing that is still evaluated looks there. -/
namespace FieldRules

namespace Outcome

/-- A field that failed is written as the beginning of this one up to a dot. -/
def isUnderFailed (o : Outcome) (field : String) : Bool :=
  o.failures.any fun e => IsDotPrefix e.1 field

theorem isUnderFailed_iff {o : Outcome} {f : String} :
    o.isUnderFailed f = true ↔ ∃ e ∈ o.results, e.2.isValid = false ∧ IsDotPrefix e.1 f := by
  simp [isUnderFailed, failures, List.any_eq_true]

end Outcome

/-- One may be evaluated before the other: their ways part, or the other's field is below. -/
structure Validator.Precedes (v w : Validator) : Prop where
  apart : Diverge v.path.segments w.path.segments ∨ v.path.IsAbove w.path
  not_below : ¬ w.path.IsAbove v.path

/-- All verdicts of an evaluation that skips nothing, with what is under a field that failed. -/
structure IsRun (all : List (Validator × Verdict)) (under : String → Bool) : Prop where
  built : ∀ e ∈ all, e.1.IsBuilt
  order : all.Pairwise fun e e' => e.1.Precedes e'.1
  under_iff : ∀ f, under f = true ↔ ∃ e ∈ all, e.2.isValid = false ∧ IsDotPrefix e.1.field f

/-- The evaluation that skips has come to `c'` with these fields failed where the other has come to
`c`. The two agree on what is left and not under a failed field. -/
structure Follows (under : String → Bool) (done left : List (Validator × Verdict))
    (failed : List String) (c c' : Context) : Prop where
  override : c.override = none
  override' : c'.override = none
  standing : c'.subject.standing = c.subject.standing
  walk : ∀ e ∈ left, under e.1.field = false →
    c'.subject.walk e.1.path.segments = c.subject.walk e.1.path.segments
  failed : ∀ f, f ∈ failed ↔
    ∃ e ∈ done, e.1.field = f ∧ (e.2.isValid = false ∨ under f = true)

section
variable {all done left : List (Validator × Verdict)} {under : String → Bool} {v : Validator}
  {d : Verdict} {failed : List String} {c c' c₁ : Context}

theorem IsRun.isDotPrefix_iff (hr : IsRun all under) {e e' : Validator × Verdict} (he : e ∈ all)
    (he' : e' ∈ all) : IsDotPrefix e.1.field e'.1.field ↔ e.1.path.IsAbove e'.1.path :=
  FieldPath.isDotPrefix_text_iff (hr.built e' he').plain (hr.built e he).plain

/-- What is under a field that is under a failed one is under that too. -/
theorem IsRun.under_of_isDotPrefix (hr : IsRun all under) {f g : String} (h : IsDotPrefix f g)
    (hf : under f = true) : under g = true := by
  obtain ⟨e, he, hv, hef⟩ := (hr.under_iff f).1 hf
  exact (hr.under_iff g).2 ⟨e, he, hv, isDotPrefix_trans hef h⟩

theorem IsRun.precedes (hr : IsRun (done ++ (v, d) :: left) under) {e : Validator × Verdict}
    (he : e ∈ left) : v.Precedes e.1 :=
  (List.pairwise_cons.1 (List.pairwise_append.1 hr.order).2.1).1 e he

/-- A field is skipped exactly where it is under a failed one. -/
theorem Follows.blocks_eq (hr : IsRun (done ++ (v, d) :: left) under)
    (hf : Follows under done ((v, d) :: left) failed c c') :
    RuleSetConfig.blocks ⟨.signal, .skipOnFailure⟩ v failed = under v.field := by
  have hv : (v, d) ∈ done ++ (v, d) :: left := by simp
  have hdone : ∀ e ∈ done, e ∈ done ++ (v, d) :: left := fun e he => List.mem_append_left _ he
  have hdeps : ∀ e ∈ done, (e.1.field ∈ v.dependsOn ↔ IsDotPrefix e.1.field v.field) :=
    fun e he => Validator.mem_dependsOn_iff (hr.built _ hv) (hr.built e (hdone e he))
  rw [Bool.eq_iff_iff]
  simp only [RuleSetConfig.blocks, decide_true, Bool.true_and, List.any_eq_true,
    List.contains_iff_mem]
  constructor
  · rintro ⟨f, hfv, hff⟩
    obtain ⟨e, he, rfl, h | h⟩ := (hf.failed f).1 hff
    · exact (hr.under_iff _).2 ⟨e, hdone e he, h, (hdeps e he).1 hfv⟩
    · exact hr.under_of_isDotPrefix ((hdeps e he).1 hfv) h
  · intro h
    obtain ⟨e, he, hev, hefv⟩ := (hr.under_iff _).1 h
    -- The failed field above this one has been evaluated before.
    have hed : e ∈ done := by
      rcases List.mem_append.1 he with h | h
      · exact h
      · have hab := (hr.isDotPrefix_iff he hv).1 hefv
        rcases List.mem_cons.1 h with rfl | h
        · exact absurd hefv (not_isDotPrefix_self _)
        · exact absurd hab (hr.precedes h).not_below
    exact ⟨e.1.field, (hdeps e hed).2 hefv, (hf.failed _).2 ⟨e, hed, rfl, .inl hev⟩⟩

theorem Follows.failed_concat_iff (hf : Follows under done ((v, d) :: left) failed c c')
    (f : String) :
    (∃ e ∈ done ++ [(v, d)], e.1.field = f ∧ (e.2.isValid = false ∨ under f = true)) ↔
      f ∈ failed ∨ (v.field = f ∧ (d.isValid = false ∨ under f = true)) := by
  simp [hf.failed f, or_and_right, exists_or]

/-- What the other stores for a field that is skipped is stored under a failed field. -/
theorem Follows.skip (hr : IsRun (done ++ (v, d) :: left) under)
    (hf : Follows under done ((v, d) :: left) failed c c') (hu : under v.field = true)
    (hv : v.validate c = (.ok d, c₁)) :
    Follows under (done ++ [(v, d)]) left (v.field :: failed) c₁ c' := by
  obtain ⟨result, x, hx, hrun⟩ := v.exists_store c
  obtain ⟨rfl, rfl⟩ := Prod.mk.inj ((hrun c hf.override ⟨rfl, rfl⟩).symm.trans hv)
  refine ⟨hf.override, hf.override', ?_, fun e he hue => ?_, fun f => ?_⟩
  · exact hf.standing.trans (Context.standing_store hx).symm
  · have hab : ¬ v.path.IsAbove e.1.path := by
      intro h
      have hmem : (v, d) ∈ done ++ (v, d) :: left := by simp
      have hpre := (hr.isDotPrefix_iff hmem (by simp [he])).2 h
      have := hr.under_of_isDotPrefix hpre hu
      rw [hue] at this
      simp at this
    have hd := (hr.precedes he).apart.resolve_right hab
    rw [Context.store_eq, Value.walk_put_of_diverge hd]
    exact hf.walk e (List.mem_cons_of_mem _ he) hue
  · rw [hf.failed_concat_iff, List.mem_cons]
    constructor
    · rintro (rfl | h)
      · exact .inr ⟨rfl, .inr hu⟩
      · exact .inl h
    · rintro (h | ⟨rfl, _⟩)
      · exact .inr h
      · exact .inl rfl

/-- A value stored at a place where two subjects agree makes them agree below it. -/
theorem Value.walk_put_append_congr {a b x : Value} {p q : List String}
    (hx : ∀ w, a.walk p = .ok (some w) → w.TrimsTo x) (hp : b.walk p = a.walk p)
    (hq : b.walk (p ++ q) = a.walk (p ++ q)) :
    (b.put p x).walk (p ++ q) = (a.put p x).walk (p ++ q) := by
  by_cases h : ∃ w, a.walk p = .ok (some w)
  · obtain ⟨w, hw⟩ := h
    have hn : x.isNull = false := by rw [(hx w hw).isNull, isNull_eq_false_of_walk hw]
    rw [walk_append (walk_put_self (hp.trans hw) hn), walk_append (walk_put_self hw hn)]
  · have ha : ∀ w, a.walk p ≠ .ok (some w) := fun w hw => h ⟨w, hw⟩
    rw [put_of_not_found ha, put_of_not_found (by rwa [hp]), hq]

/-- A field that is not under a failed one comes to the same verdict, and the same is stored. -/
theorem Follows.check (hr : IsRun (done ++ (v, d) :: left) under)
    (hf : Follows under done ((v, d) :: left) failed c c') (hu : under v.field = false)
    (hv : v.validate c = (.ok d, c₁)) :
    ∃ c₂, v.validate c' = (.ok d, c₂) ∧ Follows under (done ++ [(v, d)]) left
      (if d.isValid then failed else v.field :: failed) c₁ c₂ := by
  obtain ⟨result, x, hx, hrun⟩ := v.exists_store c
  have hwalk := hf.walk (v, d) List.mem_cons_self hu
  have hv' := hrun c' hf.override' ⟨hf.standing, hwalk⟩
  obtain ⟨rfl, rfl⟩ := Prod.mk.inj ((hrun c hf.override ⟨rfl, rfl⟩).symm.trans hv)
  refine ⟨_, hv', ?_⟩
  have hx' : ∀ w, c'.subject.walk v.path.segments = .ok (some w) → w.TrimsTo x :=
    fun w hw => hx w (hwalk ▸ hw)
  refine ⟨hf.override, hf.override', ?_, fun e he hue => ?_, fun f => ?_⟩
  · exact (Context.standing_store hx').trans
      (hf.standing.trans (Context.standing_store hx).symm)
  · rw [Context.store_eq, Context.store_eq]
    have hold := hf.walk e (List.mem_cons_of_mem _ he) hue
    rcases (hr.precedes he).apart with hd | ⟨rest, _, hrest⟩
    · rw [Value.walk_put_of_diverge hd, Value.walk_put_of_diverge hd, hold]
    · rw [hrest] at hold ⊢
      exact Value.walk_put_append_congr hx hwalk hold
  · rw [hf.failed_concat_iff]
    by_cases hfv : v.field = f
    · subst hfv
      cases d.isValid <;> simp [hu]
    · cases d.isValid <;> simp [hfv, Ne.symm hfv]

/-- Skipping evaluates what is not under a failed field to the same verdicts and skips the rest. -/
theorem Follows.evaluate {vs : List Validator} {ds : List (Validator × Verdict)}
    (hr : IsRun (done ++ ds) under) (hf : Follows under done ds failed c c')
    (h : Completes vs c ds c₁) (o : Outcome) : ∃ c₂,
      RuleSetConfig.evaluate ⟨.signal, .skipOnFailure⟩ vs failed o c' =
        (.ok ((o.recordAll (ds.filter fun e => !under e.1.field)).skipAll
          ((ds.map fun e => e.1.field).filter under)), c₂) := by
  induction h generalizing done failed c' o with
  | nil c => exact ⟨c', by simp [RuleSetConfig.evaluate]⟩
  | @cons v vs d ds c c₁ c₂ hv _ ih =>
    have hassoc : done ++ (v, d) :: ds = done ++ [(v, d)] ++ ds := by simp
    have hgo : RuleSetConfig.halts ⟨.signal, .skipOnFailure⟩ o = false := by
      simp [RuleSetConfig.halts]
    rw [RuleSetConfig.evaluate, hgo, hf.blocks_eq hr]
    cases hu : under v.field with
    | true =>
      obtain ⟨c₃, he⟩ := ih (hassoc ▸ hr) (hf.skip hr hu hv) (o.skip v.field)
      refine ⟨c₃, ?_⟩
      simp [hu, he, Outcome.recordAll_skip]
    | false =>
      obtain ⟨c₃, hv', hf'⟩ := hf.check hr hu hv
      obtain ⟨c₄, he⟩ := ih (hassoc ▸ hr) hf' (o.record v d)
      refine ⟨c₄, ?_⟩
      simp [hu, hv', he]

end

namespace RuleSet

theorem inOrder_precedes {vs : List Validator} (hb : ∀ v ∈ vs, v.IsBuilt)
    (hd : (vs.map Validator.field).Nodup) (hcan : ∀ v ∈ vs, v.path.IsCanonical) :
    (inOrder vs).Pairwise Validator.Precedes := by
  have hr := pairwise_diverge_or_isAbove (inOrder_nodup hd) fun v hv => hcan v (mem_inOrder.1 hv)
  refine (hr.and (inOrder_pairwise hb hd)).imp ?_
  rintro v w ⟨h, hn⟩
  refine ⟨?_, hn⟩
  rcases h with h | h | h
  · exact .inl h
  · exact .inr h
  · exact absurd h hn

/-- The verdicts of an evaluation that skips nothing. -/
theorem isRun_inOrder {vs : List Validator} (hb : ∀ v ∈ vs, v.IsBuilt)
    (hd : (vs.map Validator.field).Nodup) (hcan : ∀ v ∈ vs, v.path.IsCanonical)
    {ds : List (Validator × Verdict)} (hds : ds.map Prod.fst = inOrder vs) {o : Outcome}
    (ho : o.results = ds.map fun e => (e.1.field, e.2)) : IsRun ds o.isUnderFailed where
  built e he := hb e.1 (mem_inOrder.1 (hds ▸ List.mem_map_of_mem he))
  order := List.pairwise_map.1 (hds ▸ inOrder_precedes hb hd hcan)
  under_iff f := by
    rw [Outcome.isUnderFailed_iff, ho]
    simp only [List.mem_map, exists_exists_and_eq_and]

/-- Skipping below failed fields is a filter: where an evaluation that skips nothing comes to an
end, one that skips does too, with the results of the fields that are not under a failed one, as
they are and in their order, and all others skipped. -/
theorem validate_skipOnFailure {cycle? : Graph → Option Nat} {vs : List Validator}
    (hb : ∀ v ∈ vs, v.IsBuilt) (hcan : ∀ v ∈ vs, v.path.IsCanonical) {rs : RuleSet}
    (hrs : ofValidatorsBy cycle? vs ⟨.signal, .orderOnly⟩ = .ok rs) {subject subject' : Value}
    {o : Outcome} (h : rs.validate subject = (.ok o, subject')) :
    ∃ rs' o' s', ofValidatorsBy cycle? vs ⟨.signal, .skipOnFailure⟩ = .ok rs' ∧
      rs'.validate subject = (.ok o', s') ∧
      o'.results = o.results.filter (fun e => !o.isUnderFailed e.1) ∧
      o'.skipped = rs.evaluationOrder.filter o.isUnderFailed := by
  have hbuilt := (ofValidatorsBy_withConfig hrs ⟨.signal, .skipOnFailure⟩).2
  obtain ⟨hd, rfl⟩ := of_ofValidatorsBy_eq_ok hb hrs
  obtain ⟨ds, c₁, hr, rfl, _⟩ := validate_eq_ok_iff.1 h
  have hfresh : Outcome.IsFresh {} (ds.map fun e => e.1.field) := hr.map_field ▸ inOrder_nodup hd
  have hresults := Outcome.results_recordAll hfresh
  -- Both begin with the same subject.
  have hstart : Follows (Outcome.recordAll {} ds).isUnderFailed [] ds []
      { subject := subject } { subject := subject } :=
    ⟨rfl, rfl, rfl, fun _ _ _ => rfl, by simp⟩
  have hrun : IsRun ([] ++ ds) (Outcome.recordAll {} ds).isUnderFailed :=
    isRun_inOrder hb hd hcan hr.map_fst hresults
  obtain ⟨c₂, he⟩ := hstart.evaluate hrun hr {}
  refine ⟨_, _, _, hbuilt, validate_eq_iff.2 ⟨c₂, he, rfl⟩, ?_, ?_⟩
  · have hkept : Outcome.IsFresh {} ((ds.filter fun e =>
        !(Outcome.recordAll {} ds).isUnderFailed e.1.field).map fun e => e.1.field) :=
      hfresh.of_sublist (List.filter_sublist.map _)
    have hfilter : ((ds.map fun e => (e.1.field, e.2)).filter fun e =>
        !(Outcome.recordAll {} ds).isUnderFailed e.1) = _ := List.filter_map
    rw [hresults, List.nil_append, hfilter]
    exact Outcome.results_recordAll hkept
  · rw [evaluationOrder, ← hr.map_field, Outcome.skipAll, Outcome.skipped_recordAll]
    rfl

/-- A name is skipped below a user that may not stand beside a guest, and so it is not trimmed. -/
theorem guest_skipOnFailure :
    let vs := Builder.validators {} [("user.name", ["STR", "HARDTRIM", "LEN:1-2:LONG"]),
      ("user", ["OBJ", "MEX:guest:BOTH"]), ("guest", ["STR", "HARDTRIM"])]
    let subject : Value := .object [("user", .object [("name", .scalar (.string " Al "))]),
      ("guest", .scalar (.string " Bo"))]
    (∀ v ∈ vs, v.IsBuilt) ∧ (∀ v ∈ vs, v.path.IsCanonical) ∧ ∃ rs rs' o o' s s',
      ofValidatorsBy Graph.stuck? vs ⟨.signal, .orderOnly⟩ = .ok rs ∧
      rs.validate subject = (.ok o, s) ∧ Entries.keys o.results = ["user", "user.name", "guest"] ∧
      ofValidatorsBy Graph.stuck? vs ⟨.signal, .skipOnFailure⟩ = .ok rs' ∧
      rs'.validate subject = (.ok o', s') ∧ s.same s' = false ∧
      o'.results = o.results.filter (fun e => !o.isUnderFailed e.1) ∧
      o'.skipped = ["user.name"] := by
  intro vs subject
  have hb : ∀ v ∈ vs, v.IsBuilt := fun v hv => Builder.isBuilt_of_mem_validators hv
  have hcan : ∀ v ∈ vs, v.path.IsCanonical := by decide +kernel
  have hbuilt : ∀ c, ofValidatorsBy Graph.stuck? vs c = .ok ⟨inOrder vs, c⟩ :=
    ofValidatorsBy_of_nodup hb (by decide +kernel) (by decide +kernel)
  obtain ⟨o, s, h, hkeys⟩ := exists_outcome ⟨inOrder vs, ⟨.signal, .orderOnly⟩⟩ subject
    (fun o => Entries.keys o.results) ["user", "user.name", "guest"] (by decide +kernel)
  obtain ⟨rs', o', s', hrs', h', hresults, hskipped⟩ := validate_skipOnFailure hb hcan (hbuilt _) h
  obtain rfl := Except.ok.inj ((hbuilt _).symm.trans hrs')
  refine ⟨hb, hcan, _, _, o, o', s, s', hbuilt _, h, hkeys, hbuilt _, h', ?_, hresults, ?_⟩
  · have hsame : (validate ⟨inOrder vs, ⟨.signal, .orderOnly⟩⟩ subject).2.same
        (validate ⟨inOrder vs, ⟨.signal, .skipOnFailure⟩⟩ subject).2 = false := by decide +kernel
    rwa [h, h'] at hsame
  · have hskip : (validate ⟨inOrder vs, ⟨.signal, .skipOnFailure⟩⟩ subject).1.toOption.map
        Outcome.skipped = some ["user.name"] := by decide +kernel
    rw [h'] at hskip
    exact Option.some.inj hskip

end RuleSet
end FieldRules

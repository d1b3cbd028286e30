import FieldRules.Proofs.Effects
import FieldRules.Proofs.EvaluationOrder
import FieldRules.Proofs.Runs

/-! Validators of fields on ways that part can change places, and those of nested fields never do.
So the order in which fields are declared does not show in what is found. -/
namespace FieldRules

namespace FieldPath

/-- Segments that read as an index of a list are written as the index. -/
def IsCanonical (p : FieldPath) : Prop :=
  ∀ s ∈ p.segments, ∀ n, Text.natural? s.toList = some n → s = toString n

instance (p : FieldPath) : Decidable p.IsCanonical :=
  decidable_of_iff
    (p.segments.all fun s => (Text.natural? s.toList).all fun n => s = toString n)
    (by simp [IsCanonical, Option.all_eq_true])

end FieldPath

theorem areApart_of_canonical {s t : String} (hne : s ≠ t)
    (hs : ∀ n, Text.natural? s.toList = some n → s = toString n)
    (ht : ∀ n, Text.natural? t.toList = some n → t = toString n) : AreApart s t := by
  refine ⟨hne, fun i hi hj => hne ?_⟩
  rw [hs i hi, ← ht i hj]

theorem diverge_or_isPrefix {p q : List String}
    (hp : ∀ s ∈ p, ∀ n, Text.natural? s.toList = some n → s = toString n)
    (hq : ∀ s ∈ q, ∀ n, Text.natural? s.toList = some n → s = toString n) :
    Diverge p q ∨ p <+: q ∨ q <+: p := by
  induction p generalizing q with
  | nil => exact .inr (.inl List.nil_prefix)
  | cons s p ih =>
    cases q with
    | nil => exact .inr (.inr List.nil_prefix)
    | cons t q =>
      by_cases hst : s = t
      · subst hst
        have hp' := fun u hu => hp u (List.mem_cons_of_mem s hu)
        have hq' := fun u hu => hq u (List.mem_cons_of_mem s hu)
        rcases ih hp' hq' with h | h | h
        · exact .inl (.later h)
        · exact .inr (.inl (List.cons_prefix_cons.2 ⟨rfl, h⟩))
        · exact .inr (.inr (List.cons_prefix_cons.2 ⟨rfl, h⟩))
      · exact .inl (.here (areApart_of_canonical hst (hp s (by simp)) (hq t (by simp))))

namespace FieldPath

theorem isAbove_of_isPrefix {p q : FieldPath} (h : p.segments <+: q.segments) (hne : p ≠ q) :
    p.IsAbove q := by
  obtain ⟨rest, h⟩ := h
  refine ⟨rest, ?_, h.symm⟩
  rintro rfl
  apply hne
  cases p
  cases q
  simpa using h

/-- Two fields are nested, or their ways part. -/
theorem diverge_or_isAbove {p q : FieldPath} (hp : p.IsCanonical) (hq : q.IsCanonical)
    (hne : p ≠ q) : Diverge p.segments q.segments ∨ p.IsAbove q ∨ q.IsAbove p := by
  rcases diverge_or_isPrefix hp hq with h | h | h
  · exact .inl h
  · exact .inr (.inl (isAbove_of_isPrefix h hne))
  · exact .inr (.inr (isAbove_of_isPrefix h hne.symm))

end FieldPath

/-- A trimming stored where something is found leaves all paths standing as before. -/
theorem Context.standing_store {c : Context} {p : FieldPath} {x : Value}
    (hx : ∀ w, c.subject.walk p.segments = .ok (some w) → w.TrimsTo x) :
    (c.store p x).subject.standing = c.subject.standing := by
  rw [store_eq]
  exact (Value.trimsTo_put hx).standing

/-- What a check comes to and what it stores are the same in all contexts that look alike to it. -/
theorem Validator.exists_store (v : Validator) (c : Context) :
    ∃ result x, (∀ w, c.subject.walk v.path.segments = .ok (some w) → w.TrimsTo x) ∧
      ∀ c' : Context, c'.override = none → c'.Shows c.subject.standing v.path
        (c.subject.walk v.path.segments) → v.validate c' = (result, c'.store v.path x) := by
  obtain ⟨result, x, hx, hrun⟩ := v.rule.isLocal c.subject.standing v.path
    (c.subject.walk v.path.segments)
  exact ⟨result, x, fun w hw => (hx w hw).1, fun c' ho hc => hrun v.path c' (by rw [ho]; rfl) hc⟩

/-- Two checks on ways that part come to the same in either order. -/
theorem Validator.swap {v w : Validator} (hd : Diverge v.path.segments w.path.segments)
    {c c₁ c₂ : Context} (ho : c.override = none) {a b : Verdict} (hv : v.validate c = (.ok a, c₁))
    (hw : w.validate c₁ = (.ok b, c₂)) :
    ∃ c₁', w.validate c = (.ok b, c₁') ∧ v.validate c₁' = (.ok a, c₂) := by
  obtain ⟨ra, x, hx, hrunv⟩ := v.exists_store c
  obtain ⟨rb, y, hy, hrunw⟩ := w.exists_store c
  have hv₁ : v.validate c = (ra, c.store v.path x) := hrunv c ho ⟨rfl, rfl⟩
  have hw₁ : w.validate c = (rb, c.store w.path y) := hrunw c ho ⟨rfl, rfl⟩
  have hw₂ : w.validate (c.store v.path x) = (rb, (c.store v.path x).store w.path y) := by
    refine hrunw _ ho ⟨Context.standing_store hx, ?_⟩
    rw [Context.store_eq, Value.walk_put_of_diverge hd]
  have hv₂ : v.validate (c.store w.path y) = (ra, (c.store w.path y).store v.path x) := by
    refine hrunv _ ho ⟨Context.standing_store hy, ?_⟩
    rw [Context.store_eq, Value.walk_put_of_diverge hd.symm]
  obtain ⟨rfl, rfl⟩ := Prod.mk.inj (hv₁.symm.trans hv)
  obtain ⟨rfl, rfl⟩ := Prod.mk.inj (hw₂.symm.trans hw)
  refine ⟨_, hw₁, hv₂.trans ?_⟩
  simp only [Context.store_eq, Value.put_comm_of_diverge hd]

namespace Completes

theorem override_eq {v : Validator} {c c' : Context} {d : Except Failure Verdict}
    (h : v.validate c = (d, c')) : c'.override = c.override := by
  have ho := (v.rule.check_effect v.path c).2.1
  rwa [show v.rule.check v.path c = (d, c') from h] at ho

/-- A validator whose way parts from those in front of it can come first. -/
theorem move_to_front {v : Validator} {as bs : List Validator} {c c' : Context}
    {ds : List (Validator × Verdict)} (ho : c.override = none)
    (hd : ∀ a ∈ as, Diverge a.path.segments v.path.segments)
    (h : Completes (as ++ v :: bs) c ds c') :
    ∃ ds', Completes (v :: (as ++ bs)) c ds' c' ∧ ds'.Perm ds := by
  induction as generalizing c ds with
  | nil => exact ⟨ds, h, .refl ds⟩
  | cons a as ih =>
    cases h with
    | cons ha hs =>
      obtain ⟨ds', h', hp⟩ := ih ((override_eq ha).trans ho) (fun b hb => hd b (by simp [hb])) hs
      cases h' with
      | cons hv hs' =>
        obtain ⟨c₁', hv', ha'⟩ := Validator.swap (hd a (by simp)) ho ha hv
        exact ⟨_, .cons hv' (.cons ha' hs'), (List.Perm.swap _ _ _).trans (hp.cons _)⟩

/-- Runs in orders in which no field stands in front of one above it come to the same. -/
theorem reorder {vs ws : List Validator} (hperm : vs.Perm ws)
    (hv : vs.Pairwise fun v w => ¬ w.path.IsAbove v.path)
    (hw : ws.Pairwise fun v w => ¬ w.path.IsAbove v.path)
    (hr : vs.Pairwise fun v w => Diverge v.path.segments w.path.segments ∨
      v.path.IsAbove w.path ∨ w.path.IsAbove v.path)
    {c c' : Context} (ho : c.override = none) {ds : List (Validator × Verdict)}
    (h : Completes ws c ds c') : ∃ ds', Completes vs c ds' c' ∧ ds'.Perm ds := by
  induction vs generalizing ws c ds with
  | nil =>
    obtain rfl := hperm.nil_eq
    exact ⟨ds, h, .refl ds⟩
  | cons v vs ih =>
    obtain ⟨hva, hv⟩ := List.pairwise_cons.1 hv
    obtain ⟨hvr, hr⟩ := List.pairwise_cons.1 hr
    obtain ⟨as, bs, rfl⟩ := List.append_of_mem (hperm.mem_iff.1 List.mem_cons_self)
    have hrest : vs.Perm (as ++ bs) := (hperm.trans List.perm_middle).cons_inv
    obtain ⟨hwa, hwv, hwab⟩ := List.pairwise_append.1 hw
    have hdiverge : ∀ a ∈ as, Diverge a.path.segments v.path.segments := by
      intro a ha
      have ham : a ∈ vs := hrest.mem_iff.2 (List.mem_append_left _ ha)
      rcases hvr a ham with h | h | h
      · exact h.symm
      · exact absurd h (hwab a ha v List.mem_cons_self)
      · exact absurd h (hva a ham)
    obtain ⟨ds', h', hp⟩ := h.move_to_front ho hdiverge
    cases h' with
    | cons hfirst hs =>
      have hw' : (as ++ bs).Pairwise fun v w => ¬ w.path.IsAbove v.path :=
        List.pairwise_append.2 ⟨hwa, (List.pairwise_cons.1 hwv).2,
          fun a ha b hb => hwab a ha b (List.mem_cons_of_mem v hb)⟩
      obtain ⟨ds₂, h₂, hp₂⟩ := ih hrest hv hw' hr ((override_eq hfirst).trans ho) hs
      exact ⟨_, .cons hfirst h₂, (hp₂.cons _).trans hp⟩

end Completes

namespace RuleSet

theorem pairwise_diverge_or_isAbove {vs : List Validator} (hd : (vs.map Validator.field).Nodup)
    (hcan : ∀ v ∈ vs, v.path.IsCanonical) :
    vs.Pairwise fun v w => Diverge v.path.segments w.path.segments ∨
      v.path.IsAbove w.path ∨ w.path.IsAbove v.path := by
  have hne : vs.Pairwise fun v w => v.field ≠ w.field := List.pairwise_map.1 hd
  refine hne.imp_of_mem fun {v w} hv hw hvw => ?_
  refine FieldPath.diverge_or_isAbove (hcan v hv) (hcan w hw) fun hp => hvw ?_
  rw [Validator.field, Validator.field, hp]

/-- What one order of the declarations comes to, every other does. -/
theorem validate_inOrder_of_perm {vs ws : List Validator} (hb : ∀ v ∈ vs, v.IsBuilt)
    (hd : (vs.map Validator.field).Nodup) (hcan : ∀ v ∈ vs, v.path.IsCanonical) (hp : vs.Perm ws)
    {subject subject' : Value} {o : Outcome}
    (h : RuleSet.validate ⟨inOrder ws, ⟨.signal, .orderOnly⟩⟩ subject = (.ok o, subject')) :
    ∃ o', RuleSet.validate ⟨inOrder vs, ⟨.signal, .orderOnly⟩⟩ subject = (.ok o', subject') ∧
      (∀ f, o'.find? f = o.find? f) ∧ o'.stopAll = o.stopAll := by
  have hbw : ∀ v ∈ ws, v.IsBuilt := fun v hv => hb v (hp.mem_iff.2 hv)
  have hdw : (ws.map Validator.field).Nodup := (hp.map _).nodup_iff.1 hd
  have hdo := inOrder_nodup hdw
  have hperm : (inOrder vs).Perm (inOrder ws) :=
    (inOrder_perm vs).trans (hp.trans (inOrder_perm ws).symm)
  have hr : (inOrder vs).Pairwise fun v w => Diverge v.path.segments w.path.segments ∨
      v.path.IsAbove w.path ∨ w.path.IsAbove v.path :=
    pairwise_diverge_or_isAbove (inOrder_nodup hd) fun v hv => hcan v (mem_inOrder.1 hv)
  obtain ⟨ds, c', hs, rfl, rfl⟩ := validate_eq_ok_iff.1 h
  obtain ⟨ds', hs', hds⟩ :=
    hs.reorder hperm (inOrder_pairwise hb hd) (inOrder_pairwise hbw hdw) hr rfl
  have hfields : (ds.map fun e => e.1.field).Nodup := hs.map_field ▸ hdo
  refine ⟨_, validate_eq_ok_iff.2 ⟨ds', c', hs', rfl, rfl⟩, ?_, ?_⟩
  · exact Outcome.find?_recordAll_perm hds hfields
  · rw [Outcome.stopAll_recordAll, Outcome.stopAll_recordAll, hds.any_eq]

/-- Where stopping fields only signal and dependencies only order, it does not matter in which order
fields are declared: the same subjects are checked to the end, with the same result for every field,
the same stop flag and the same subject in the end. -/
theorem validate_declarationOrder {cycle? : Graph → Option Nat}
    (hc : ∀ g, cycle? g = none ↔ g.IsAcyclic) {vs ws : List Validator}
    (hb : ∀ v ∈ vs, v.IsBuilt) (hd : (vs.map Validator.field).Nodup)
    (hcan : ∀ v ∈ vs, v.path.IsCanonical) (hp : vs.Perm ws) (subject : Value) :
    ∃ rs rs', ofValidatorsBy cycle? vs ⟨.signal, .orderOnly⟩ = .ok rs ∧
      ofValidatorsBy cycle? ws ⟨.signal, .orderOnly⟩ = .ok rs' ∧
      ((∃ o, (rs.validate subject).1 = .ok o) ↔ ∃ o, (rs'.validate subject).1 = .ok o) ∧
      ∀ o o' s s', rs.validate subject = (.ok o, s) → rs'.validate subject = (.ok o', s') →
        (∀ f, o.find? f = o'.find? f) ∧ o.stopAll = o'.stopAll ∧ s = s' := by
  have hbw : ∀ v ∈ ws, v.IsBuilt := fun v hv => hb v (hp.mem_iff.2 hv)
  have hdw : (ws.map Validator.field).Nodup := (hp.map _).nodup_iff.1 hd
  have hcanw : ∀ v ∈ ws, v.path.IsCanonical := fun v hv => hcan v (hp.mem_iff.2 hv)
  have hacyclic : ∀ {us : List Validator}, (∀ v ∈ us, v.IsBuilt) →
      (us.map Validator.field).Nodup → cycle? (dependencies us) = none := fun hbu hdu =>
    (hc _).2 (Graph.isAcyclic_of_rank (isRanked_dependencies hbu hdu))
  refine ⟨_, _, ofValidatorsBy_of_nodup hb hd (hacyclic hb hd) _,
    ofValidatorsBy_of_nodup hbw hdw (hacyclic hbw hdw) _, ⟨?_, ?_⟩, ?_⟩
  · rintro ⟨o, h⟩
    obtain ⟨o', h', _⟩ := validate_inOrder_of_perm hbw hdw hcanw hp.symm (Prod.ext h rfl)
    exact ⟨o', congrArg Prod.fst h'⟩
  · rintro ⟨o, h⟩
    obtain ⟨o', h', _⟩ := validate_inOrder_of_perm hb hd hcan hp (Prod.ext h rfl)
    exact ⟨o', congrArg Prod.fst h'⟩
  · intro o o' s s' h h'
    obtain ⟨o₁, h₁, hf, hs⟩ := validate_inOrder_of_perm hb hd hcan hp h'
    obtain ⟨ho, rfl⟩ := Prod.mk.inj (h.symm.trans h₁)
    obtain rfl := Except.ok.inj ho
    exact ⟨hf, hs, rfl⟩

/-- An element of a list is checked after the list, which trims it, wherever it is declared. -/
theorem reversed_declarationOrder :
    let vs := Builder.validators { shared := [("tag", ["STR", "HARDTRIM"])] }
      [("tags.0", ["STR", "LEN:1-1:LONG"]), ("name", ["STR", "HARDTRIM", "MEX:tags:BOTH"]),
        ("tags", ["SLICE", "ELEM:tag"])]
    let subject : Value := .object [("name", .scalar (.string "x ")),
      ("tags", .list [.scalar (.string " a")])]
    (∀ g, Graph.stuck? g = none ↔ g.IsAcyclic) ∧ (∀ v ∈ vs, v.IsBuilt) ∧
      (vs.map Validator.field).Nodup ∧ (∀ v ∈ vs, v.path.IsCanonical) ∧ vs.Perm vs.reverse ∧
      ∃ rs rs' o o' s s', ofValidatorsBy Graph.stuck? vs ⟨.signal, .orderOnly⟩ = .ok rs ∧
        ofValidatorsBy Graph.stuck? vs.reverse ⟨.signal, .orderOnly⟩ = .ok rs' ∧
        rs.validate subject = (.ok o, s) ∧ rs'.validate subject = (.ok o', s') ∧
        o.find? "tags.0" = some (.present ∅) ∧ o'.find? "tags.0" = some (.present ∅) ∧
        (∀ f, o.find? f = o'.find? f) ∧ o.stopAll = o'.stopAll ∧ s = s' := by
  intro vs subject
  have hb : ∀ v ∈ vs, v.IsBuilt := fun v hv => Builder.isBuilt_of_mem_validators hv
  have hd : (vs.map Validator.field).Nodup := by decide +kernel
  have hcan : ∀ v ∈ vs, v.path.IsCanonical := by decide +kernel
  have hp : vs.Perm vs.reverse := (List.reverse_perm vs).symm
  have hrun : (ofValidatorsBy Graph.stuck? vs ⟨.signal, .orderOnly⟩).toOption.bind (fun rs =>
      (rs.validate subject).1.toOption.bind fun o => o.find? "tags.0") = some (.present ∅) := by
    decide +kernel
  obtain ⟨rs, rs', hrs, hrs', hok, hsame⟩ :=
    validate_declarationOrder Graph.stuck?_eq_none_iff hb hd hcan hp subject
  simp only [hrs, Except.toOption, Option.bind_some] at hrun
  cases h : rs.validate subject with
  | mk result s =>
    cases result with
    | error e => simp [h] at hrun
    | ok o =>
      obtain ⟨o', ho'⟩ := hok.1 ⟨o, congrArg Prod.fst h⟩
      have h' : rs'.validate subject = (.ok o', (rs'.validate subject).2) := Prod.ext ho' rfl
      obtain ⟨hf, hs, hsub⟩ := hsame o o' _ _ h h'
      have ho : o.find? "tags.0" = some (.present ∅) := by simpa [h] using hrun
      exact ⟨Graph.stuck?_eq_none_iff, hb, hd, hcan, hp, rs, rs', o, o', s, _, hrs, hrs', h, h', ho,
        (hf _).symm.trans ho, hf, hs, hsub⟩

end RuleSet
end FieldRules

import FieldRules.Proofs.DotPrefix
import FieldRules.Proofs.Sorting
import FieldRules.RuleSet

/-! The order in which the fields of a rule set are evaluated. -/
namespace FieldRules

/-- A field of the list that came before, and no earlier one did. -/
def IsFirstRepeated (fields : List String) (line : Nat) (field : String) : Prop :=
  fields[line]? = some field ∧ field ∈ fields.take line ∧ (fields.take line).Nodup

namespace RuleSet

theorem firstRepeated_eq_none_iff {line : Nat} {seen fs : List String} :
    firstRepeated line seen fs = none ↔ fs.Nodup ∧ ∀ f ∈ fs, f ∉ seen := by
  induction fs generalizing line seen with
  | nil => simp [firstRepeated]
  | cons f fs ih =>
    rw [firstRepeated]
    split
    · rename_i h
      simp [h]
    · rename_i h
      rw [ih, List.nodup_cons]
      simp only [List.mem_cons, not_or]
      constructor
      · rintro ⟨hn, hs⟩
        refine ⟨⟨fun hf => (hs f hf).1 rfl, hn⟩, ?_⟩
        rintro g (rfl | hg)
        · exact h
        · exact (hs g hg).2
      · rintro ⟨⟨hf, hn⟩, hs⟩
        exact ⟨hn, fun g hg => ⟨fun hgf => hf (hgf ▸ hg), hs g (.inr hg)⟩⟩

theorem firstRepeated_eq_some {line n : Nat} {seen fs : List String} {f : String}
    (h : firstRepeated line seen fs = some (n, f)) :
    ∃ k, n = line + k ∧ fs[k]? = some f ∧ (f ∈ seen ∨ f ∈ fs.take k) ∧ (fs.take k).Nodup ∧
      ∀ g ∈ fs.take k, g ∉ seen := by
  induction fs generalizing line seen with
  | nil => simp [firstRepeated] at h
  | cons g fs ih =>
    rw [firstRepeated] at h
    split at h
    · rename_i hg
      obtain ⟨rfl, rfl⟩ := by simpa using h
      exact ⟨0, by simp, by simp, .inl hg, by simp, by simp⟩
    · rename_i hg
      obtain ⟨k, rfl, hf, hs, hn, hd⟩ := ih h
      have hgk : g ∉ fs.take k := fun hm => hd g hm (by simp)
      refine ⟨k + 1, by omega, by simpa using hf, ?_, by simpa using ⟨hgk, hn⟩, ?_⟩
      · simp only [List.take_succ_cons, List.mem_cons] at hs ⊢
        tauto
      · intro x hx
        rcases List.mem_cons.1 hx with rfl | hx
        · exact hg
        · exact fun hm => hd x hx (by simp [hm])

theorem isFirstRepeated_of_eq_some {fs : List String} {line : Nat} {f : String}
    (h : firstRepeated 0 [] fs = some (line, f)) : IsFirstRepeated fs line f := by
  obtain ⟨k, rfl, hf, hs, hn, _⟩ := firstRepeated_eq_some h
  rw [Nat.zero_add]
  exact ⟨hf, by simpa using hs, hn⟩

/-- The graph of the fields and of those that they depend on. -/
abbrev dependencies (vs : List Validator) : Graph :=
  Graph.ofDependencies (vs.map fun v => (v.field, v.dependsOn))

theorem map_fst_dependsOn (vs : List Validator) :
    (vs.map fun v => (v.field, v.dependsOn)).map Prod.fst = vs.map Validator.field :=
  List.map_map

theorem needs_dependencies_iff {vs : List Validator} (hd : (vs.map Validator.field).Nodup)
    {i j : Nat} :
    (dependencies vs).needs j i = true ↔
      ∃ v w, vs[i]? = some v ∧ vs[j]? = some w ∧ v.field ∈ w.dependsOn := by
  have hidx : ∀ {d : String}, (vs.map Validator.field).idxOf? d = some i ↔
      ∃ v, vs[i]? = some v ∧ v.field = d := by
    intro d
    rw [← Option.map_eq_some_iff, ← List.getElem?_map, List.idxOf?_eq_some_iff]
    constructor
    · rintro ⟨hi, h, _⟩
      rw [List.getElem?_eq_getElem hi, h]
    · intro h
      obtain ⟨hi, h⟩ := List.getElem?_eq_some_iff.1 h
      refine ⟨hi, h, fun k hk heq => ?_⟩
      have := (List.Nodup.getElem_inj_iff hd).1 (heq.trans h.symm)
      omega
  simp only [Graph.needs, dependencies, Graph.ofDependencies, map_fst_dependsOn, decide_eq_true_eq,
    List.mem_flatMap, List.mem_filterMap, Option.map_eq_some_iff, Prod.mk.injEq]
  constructor
  · rintro ⟨⟨n, k⟩, hn, d, hdn, _, hi, rfl, rfl⟩
    obtain ⟨v, hv, rfl⟩ := hidx.1 hi
    obtain ⟨w, hw, rfl⟩ := by simpa using List.mem_zipIdx_iff_getElem?.1 hn
    exact ⟨v, w, hv, hw, hdn⟩
  · rintro ⟨v, w, hv, hw, h⟩
    refine ⟨((w.field, w.dependsOn), j), ?_, v.field, h, i, hidx.2 ⟨v, hv, rfl⟩, rfl, rfl⟩
    exact List.mem_zipIdx_iff_getElem?.2 (by simp [hw])

section
variable {vs : List Validator} (hb : ∀ v ∈ vs, v.IsBuilt) (hd : (vs.map Validator.field).Nodup)
include hb hd

theorem needs_dependencies_iff_isAbove {i j : Nat} :
    (dependencies vs).needs j i = true ↔
      ∃ v w, vs[i]? = some v ∧ vs[j]? = some w ∧ v.path.IsAbove w.path := by
  rw [needs_dependencies_iff hd]
  refine exists_congr fun v => exists_congr fun w => and_congr_right fun hv => and_congr_right
    fun hw => ?_
  exact FieldPath.text_mem_parents_iff (hb w (List.mem_of_getElem? hw)).plain
    (hb v (List.mem_of_getElem? hv)).plain

/-- Fields rank by the length of their paths. -/
theorem isRanked_dependencies :
    IsRanked (dependencies vs).needs fun i => (vs[i]?.map fun v => v.path.segments.length).getD 0 := by
  intro j i h
  obtain ⟨v, w, hv, hw, h⟩ := (needs_dependencies_iff_isAbove hb hd).1 h
  simpa [hv, hw] using h.length_lt

end

/-- All positions, each once and behind those of the fields that its own is written below. -/
structure IsEvaluationOrder (vs : List Validator) (order : List Nat) : Prop where
  perm : order.Perm (List.range vs.length)
  parentsFirst : ∀ i j v w, vs[i]? = some v → vs[j]? = some w → IsDotPrefix v.field w.field →
    order.idxOf i < order.idxOf j

theorem isEvaluationOrder_iff {vs : List Validator} (hb : ∀ v ∈ vs, v.IsBuilt)
    (hd : (vs.map Validator.field).Nodup) {order : List Nat} :
    IsEvaluationOrder vs order ↔
      order.Perm (List.range vs.length) ∧ IsInOrder (dependencies vs).needs order := by
  have hneeds : ∀ i j, (dependencies vs).needs j i = true ↔
      ∃ v w, vs[i]? = some v ∧ vs[j]? = some w ∧ IsDotPrefix v.field w.field := by
    intro i j
    rw [needs_dependencies_iff hd]
    refine exists_congr fun v => exists_congr fun w => and_congr_right fun hv => and_congr_right
      fun hw => ?_
    exact Validator.mem_dependsOn_iff (hb w (List.mem_of_getElem? hw))
      (hb v (List.mem_of_getElem? hv))
  constructor
  · rintro ⟨hp, h⟩
    refine ⟨hp, isInOrder_of_idxOf_lt (hp.nodup_iff.2 List.nodup_range) fun j _ i _ hji => ?_⟩
    obtain ⟨v, w, hv, hw, hvw⟩ := (hneeds i j).1 hji
    exact h i j v w hv hw hvw
  · rintro ⟨hp, h⟩
    have hmem : ∀ {i : Nat} {v : Validator}, vs[i]? = some v → i ∈ order := fun hv =>
      hp.mem_iff.2 (List.mem_range.2 (List.getElem?_eq_some_iff.1 hv).1)
    exact ⟨hp, fun i j v w hv hw hvw =>
      h.idxOf_lt (hmem hw) (hmem hv) ((hneeds i j).2 ⟨v, w, hv, hw, hvw⟩)⟩

theorem nodes_dependencies (vs : List Validator) :
    (dependencies vs).nodes = List.range vs.length := by
  simp [Graph.nodes, Graph.ofDependencies]

/-- The validators at the positions of the schedule. -/
def inOrder (vs : List Validator) : List Validator :=
  (schedule (dependencies vs).needs (List.range vs.length)).filterMap fun i => vs[i]?

theorem sort_dependencies {vs : List Validator} (hb : ∀ v ∈ vs, v.IsBuilt)
    (hd : (vs.map Validator.field).Nodup) :
    (dependencies vs).sort = some (schedule (dependencies vs).needs (List.range vs.length)) := by
  rw [Graph.sort_eq_schedule (isRanked_dependencies hb hd), nodes_dependencies]

theorem ofValidatorsBy_of_nodup {cycle? : Graph → Option Nat} {vs : List Validator}
    (hb : ∀ v ∈ vs, v.IsBuilt) (hd : (vs.map Validator.field).Nodup)
    (hc : cycle? (dependencies vs) = none) (config : RuleSetConfig) :
    ofValidatorsBy cycle? vs config = .ok ⟨inOrder vs, config⟩ := by
  have hf : firstRepeated 0 [] (vs.map Validator.field) = none :=
    firstRepeated_eq_none_iff.2 ⟨hd, by simp⟩
  simp only [ofValidatorsBy, dependencyOrder, map_fst_dependsOn, hf]
  rw [show cycle? (Graph.ofDependencies _) = none from hc,
    show (Graph.ofDependencies _).sort = _ from sort_dependencies hb hd]
  rfl

theorem ofValidatorsBy_of_not_nodup (cycle? : Graph → Option Nat) {vs : List Validator}
    (hd : ¬ (vs.map Validator.field).Nodup) (config : RuleSetConfig) :
    ∃ line field, IsFirstRepeated (vs.map Validator.field) line field ∧
      ofValidatorsBy cycle? vs config = .error (.duplicateField field line) := by
  cases hf : firstRepeated 0 [] (vs.map Validator.field) with
  | none => exact absurd (firstRepeated_eq_none_iff.1 hf).1 hd
  | some p =>
    obtain ⟨line, field⟩ := p
    refine ⟨line, field, isFirstRepeated_of_eq_some hf, ?_⟩
    simp only [ofValidatorsBy, dependencyOrder, map_fst_dependsOn, hf]
    rfl

theorem filterMap_range_getElem? {α : Type} (xs : List α) :
    (List.range xs.length).filterMap (fun i => xs[i]?) = xs := by
  induction xs with
  | nil => rfl
  | cons x xs ih =>
    rw [List.length_cons, List.range_succ_eq_map]
    simpa [List.filterMap_map, Function.comp_def] using ih

theorem inOrder_perm (vs : List Validator) : (inOrder vs).Perm vs := by
  have h := (schedule_perm (dependencies vs).needs (List.range vs.length)).filterMap fun i => vs[i]?
  rwa [filterMap_range_getElem?] at h

theorem mem_inOrder {vs : List Validator} {v : Validator} : v ∈ inOrder vs ↔ v ∈ vs :=
  (inOrder_perm vs).mem_iff

theorem inOrder_nodup {vs : List Validator} (hd : (vs.map Validator.field).Nodup) :
    ((inOrder vs).map Validator.field).Nodup :=
  ((inOrder_perm vs).map _).nodup_iff.2 hd

/-- No field stands in front of one above it. -/
theorem inOrder_pairwise {vs : List Validator} (hb : ∀ v ∈ vs, v.IsBuilt)
    (hd : (vs.map Validator.field).Nodup) :
    (inOrder vs).Pairwise fun v w => ¬ w.path.IsAbove v.path := by
  have h := (schedule_isInOrder (isRanked_dependencies hb hd) (List.range vs.length)).pairwise
  refine List.Pairwise.filterMap _ (fun i j hij v hv w hw hwv => ?_) h
  rw [(needs_dependencies_iff_isAbove hb hd).2 ⟨w, v, hw, hv, hwv⟩] at hij
  exact absurd hij (by simp)

/-- What a rule set that was accepted is made of. -/
theorem of_ofValidatorsBy_eq_ok {cycle? : Graph → Option Nat} {vs : List Validator}
    (hb : ∀ v ∈ vs, v.IsBuilt) {config : RuleSetConfig} {rs : RuleSet}
    (h : ofValidatorsBy cycle? vs config = .ok rs) :
    (vs.map Validator.field).Nodup ∧ rs = ⟨inOrder vs, config⟩ := by
  by_cases hd : (vs.map Validator.field).Nodup
  · refine ⟨hd, ?_⟩
    cases hc : cycle? (dependencies vs) with
    | none =>
      rw [ofValidatorsBy_of_nodup hb hd hc] at h
      exact (Except.ok.inj h).symm
    | some line =>
      have hf : firstRepeated 0 [] (vs.map Validator.field) = none :=
        firstRepeated_eq_none_iff.2 ⟨hd, by simp⟩
      simp only [ofValidatorsBy, dependencyOrder, map_fst_dependsOn, hf] at h
      rw [show cycle? (Graph.ofDependencies _) = some line from hc] at h
      exact absurd h (by simp [bind, Except.bind])
  · obtain ⟨line, field, _, he⟩ := ofValidatorsBy_of_not_nodup cycle? hd config
    rw [he] at h
    exact absurd h (by simp)

theorem map_some_inOrder (vs : List Validator) :
    (inOrder vs).map some =
      (schedule (dependencies vs).needs (List.range vs.length)).map fun i => vs[i]? := by
  rw [inOrder, List.map_filterMap_some_eq_filter_map_isSome, List.filter_eq_self]
  intro o ho
  obtain ⟨i, hi, rfl⟩ := List.mem_map.1 ho
  have := (schedule_perm (dependencies vs).needs (List.range vs.length)).mem_iff.1 hi
  simpa using this

/-- Validators are refused exactly where a field is repeated, and named by the first that is. All
others are sorted without an edge being taken away twice, into the smallest order in which every
field comes behind those that it is written below. -/
theorem ofValidatorsBy_evaluationOrder (cycle? : Graph → Option Nat)
    (hc : ∀ g, cycle? g = none ↔ g.IsAcyclic) (vs : List Validator) (hb : ∀ v ∈ vs, v.IsBuilt)
    (config : RuleSetConfig) :
    (¬ (vs.map Validator.field).Nodup → ∃ line field,
      IsFirstRepeated (vs.map Validator.field) line field ∧
      ofValidatorsBy cycle? vs config = .error (.duplicateField field line)) ∧
    ((vs.map Validator.field).Nodup → ∃ order rs,
      (dependencies vs).sort = some order ∧
      ofValidatorsBy cycle? vs config = .ok rs ∧ rs.config = config ∧
      rs.evaluationOrder.Perm (vs.map Validator.field) ∧
      rs.validators.map some = order.map (fun i => vs[i]?) ∧
      IsEvaluationOrder vs order ∧
      ∀ other, IsEvaluationOrder vs other → order = other ∨ List.Lex (· < ·) order other) := by
  refine ⟨fun hd => ofValidatorsBy_of_not_nodup cycle? hd config, fun hd => ?_⟩
  have hr := isRanked_dependencies hb hd
  have hacyclic := (hc (dependencies vs)).2 (Graph.isAcyclic_of_rank hr)
  refine ⟨_, _, sort_dependencies hb hd, ofValidatorsBy_of_nodup hb hd hacyclic config, rfl,
    (inOrder_perm vs).map _, map_some_inOrder vs, ?_, fun other ho => ?_⟩
  · exact (isEvaluationOrder_iff hb hd).2 ⟨schedule_perm _ _, schedule_isInOrder hr _⟩
  · obtain ⟨hp, ho⟩ := (isEvaluationOrder_iff hb hd).1 ho
    exact schedule_eq_or_lex List.pairwise_lt_range hp ho

/-- A child declared in front of its parent goes last, and the rest keep their places. -/
theorem contact_evaluationOrder :
    let vs := Builder.validators {} [("user.name", ["STR"]), ("email", ["STR", "MEX:phone"]),
      ("phone", ["STR"]), ("user", ["OBJ"])]
    (∀ g, Graph.stuck? g = none ↔ g.IsAcyclic) ∧ (∀ v ∈ vs, v.IsBuilt) ∧
      (vs.map Validator.field).Nodup ∧ ∃ order rs, ofValidatorsBy Graph.stuck? vs {} = .ok rs ∧
        rs.validators.map some = order.map (fun i => vs[i]?) ∧ IsEvaluationOrder vs order ∧
        order = [1, 2, 3, 0] := by
  intro vs
  have hb : ∀ v ∈ vs, v.IsBuilt := fun v hv => Builder.isBuilt_of_mem_validators hv
  have hd : (vs.map Validator.field).Nodup := by decide +kernel
  refine ⟨Graph.stuck?_eq_none_iff, hb, hd, ?_⟩
  obtain ⟨order, rs, hs, hrs, _, _, hmap, horder, _⟩ :=
    (ofValidatorsBy_evaluationOrder Graph.stuck? Graph.stuck?_eq_none_iff vs hb {}).2 hd
  refine ⟨order, rs, hrs, hmap, horder, ?_⟩
  have hsort : (dependencies vs).sort = some [1, 2, 3, 0] := by decide +kernel
  exact Option.some.inj (hs.symm.trans hsort)

end RuleSet
end FieldRules

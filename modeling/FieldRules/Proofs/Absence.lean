import FieldRules.Proofs.Flags

/-! Unset fields. Whatever lies below an unset field is unset as well, and of an unset field a rule
asks only whether it is required. -/
namespace FieldRules

namespace Value
variable {v : Value}

/-- A walk that finds nothing finds nothing if it goes on. -/
theorem walk_append_of_none {p : List String} (h : v.walk p = .ok none) (q : List String) :
    v.walk (p ++ q) = .ok none := by
  induction p generalizing v with
  | nil =>
    cases v with
    | null => cases q <;> rfl
    | _ => simp [isNull] at h
  | cons s p ih =>
    rw [walk_cons] at h
    rw [List.cons_append, walk_cons]
    cases hs : v.child? s with
    | error e => simp [hs] at h
    | ok child =>
      cases child with
      | none => rfl
      | some w =>
        simp only [hs] at h
        exact ih h

theorem resolve_eq_none_iff {p : FieldPath} :
    v.resolve p = .ok none ↔ v.walk p.segments = .ok none := by
  unfold resolve
  cases v.walk p.segments <;> simp [Except.mapError]

/-- A field is unset if one on the way to it is. -/
theorem resolve_of_isPrefix {p q : FieldPath} (hq : q.segments <+: p.segments)
    (h : v.resolve q = .ok none) : v.resolve p = .ok none := by
  obtain ⟨rest, hrest⟩ := hq
  rw [resolve_eq_none_iff] at h ⊢
  rw [← hrest]
  exact walk_append_of_none h rest

/-- Nothing is found at the path or somewhere on the way, or else a nilable of the kind that is
unset. -/
def IsUnsetFor (subject : Value) (k : Kind) (p : FieldPath) : Prop :=
  (∃ q : FieldPath, q.segments <+: p.segments ∧ subject.resolve q = .ok none) ∨
    ∃ t, k.shape = .scalar t ∧ subject.resolve p = .ok (some (.unset t))

end Value

theorem Kind.accepts_unset_iff {k : Kind} {t : ScalarType} :
    k.accepts (.unset t) = true ↔ k.shape = .scalar t := by
  simp [accepts, Value.shape, eq_comm]

namespace Rule
variable {r : Rule} {field : FieldPath} {c c' : Context} {verdict : Verdict}

/-- The chain makes no difference where the field is unset. -/
theorem check_of_isUnsetFor (h : c.subject.IsUnsetFor r.kind (c.override.getD field)) :
    r.check field c = (.ok (.missing r.missing), c) := by
  rcases h with ⟨q, hq, hn⟩ | ⟨t, ht, hfound⟩
  · exact check_of_none (Value.resolve_of_isPrefix hq hn)
  · have hk : r.kind.accepts (.unset t) = true := Kind.accepts_unset_iff.2 ht
    rw [check_of_some hfound, if_neg (by simp [hk])]
    rfl

/-- A verdict on an unset field comes from nowhere else. -/
theorem isUnsetFor_of_check (h : r.check field c = (.ok verdict, c')) (hu : verdict.unset = true) :
    c.subject.IsUnsetFor r.kind (c.override.getD field) := by
  cases hfound : c.subject.resolve (c.override.getD field) with
  | error e => simp [check_of_error hfound] at h
  | ok found =>
    cases found with
    | none => exact .inl ⟨_, List.prefix_refl _, hfound⟩
    | some v =>
      rw [check_of_some hfound] at h
      split at h
      · simp at h
      · rename_i hk
        split at h
        · rename_i hv
          have hk : r.kind.accepts v = true := by simpa using hk
          cases v with
          | null =>
            have := Value.isNull_eq_false_of_walk (Value.walk_of_resolve hfound)
            simp [Value.isNull] at this
          | unset t => exact .inr ⟨t, Kind.accepts_unset_iff.1 hk, hfound⟩
          | _ => simp [Value.isUnset] at hv
        · -- A chain that comes to its end has had a value to look at.
          cases hrun : checkChain field (c.override.getD field) r.chain ⟨c, v, ∅⟩ with
          | mk result c₁ =>
            cases result with
            | error e => simp [hrun, Except.map] at h
            | ok codes =>
              obtain ⟨rfl, _⟩ := by simpa [hrun, Except.map] using h
              simp [Verdict.present] at hu

end Rule

theorem Codes.toList_ofList_toList (code : Option String) :
    (Codes.ofList code.toList).toList = code.toList := by
  cases code <;> rfl

/-- A clause that requires the field was read as such. -/
theorem Scope.Reads.eq_required {sc : Scope} {c : Clause} {p : Part} (h : sc.Reads c p)
    (hc : c.code = Operation.required.code) : p = .required (sc.codeAt c 0) := by
  cases p with
  | step s =>
    obtain ⟨o, ho, hr, _⟩ := h.exists_operation
    exact absurd (Operation.code_inj.1 (ho.symm.trans hc)) hr
  | declaration =>
    cases h with
    | declaration hk => exact absurd (hc.symm.trans hk) (Operation.code_ne_code _ _)
  | required code => cases h; rfl
  | stopAll =>
    cases h with
    | stopAll hs => exact absurd (Operation.code_inj.1 (hs.symm.trans hc)) (by simp)

/-- The code for a missing field is that of the last clause that requires the field. -/
theorem Builder.missing_of_build {b : Builder} {kind? : Option Kind} {field : String}
    {texts : List String} {v : Validator} (h : b.build kind? field texts = .ok v) :
    v.rule.missing = (texts.filter Clause.requires).getLast?.map fun text =>
      (Clause.ofText text).codeAt 0 v.rule.defaultCode := by
  obtain ⟨kind, parts, _, _, _, hp, hrule⟩ := exists_parts_of_build h
  have : Nonempty Part := ⟨.declaration⟩
  obtain ⟨read, rfl, hread⟩ := exists_map_of_mapM hp
  have hcodes : (texts.map read).filterMap Part.missing? = (texts.filter Clause.requires).map
      fun text => (Clause.ofText text).codeAt 0 (b.scopeOf kind field texts).defaultCode := by
    rw [List.filterMap_map, ← List.filterMap_eq_map, List.filterMap_filter]
    apply List.filterMap_congr
    intro text ht
    have hreads := Scope.reads_of_part (hread text ht)
    by_cases hr : Clause.requires text = true
    · rw [Function.comp_apply, if_pos hr, hreads.eq_required (of_decide_eq_true hr)]
      rfl
    · rw [Function.comp_apply, if_neg hr, ← Option.not_isSome_iff_eq_none]
      exact fun hs => hr (hreads.requires hs)
  rw [hrule]
  unfold Rule.ofParts
  rw [hcodes, List.getLast?_map]

/-- Unset fields are treated alike by all rules, whatever their chains. Where nothing is found at the
path or on the way to it, and where an unset nilable of the kind is, the verdict is that the field is
unset, with no code but that of the last clause that requires the field, if one does, and the subject
stays as it was. No other verdict says that the field is unset. -/
theorem validate_unset {b : Builder} {kind? : Option Kind} {field : String} {texts : List String}
    {v : Validator} (h : b.build kind? field texts = .ok v) (c : Context) :
    (c.subject.IsUnsetFor v.rule.kind (c.override.getD v.path) →
      ∃ verdict, v.validate c = (.ok verdict, c) ∧ verdict.unset = true ∧
        verdict.codes.toList = ((texts.filter Clause.requires).getLast?.map fun text =>
          (Clause.ofText text).codeAt 0 v.rule.defaultCode).toList) ∧
    (¬ c.subject.IsUnsetFor v.rule.kind (c.override.getD v.path) →
      ∀ verdict c', v.validate c = (.ok verdict, c') → verdict.unset = false) := by
  constructor
  · intro hu
    refine ⟨_, Rule.check_of_isUnsetFor hu, rfl, ?_⟩
    rw [Verdict.missing, Codes.toList_ofList_toList, Builder.missing_of_build h]
  · intro hset verdict c' hv
    cases hu : verdict.unset with
    | false => rfl
    | true => exact absurd (Rule.isUnsetFor_of_check hv hu) hset

/-- A field of a row that is out of range, an unset limit in its place, and a count that is set. -/
theorem row_out_of_range_unset :
    let b : Builder := {}
    let texts := ["REQ", "MEX:name:BOTH", "BREAK", "INT", "RANGE:1|2:BAD", "REQ:GONE"]
    let c : Context := { subject := .object [("rows", .list [.object []]), ("limit", .unset .int),
      ("count", .scalar (.int 9)), ("name", .scalar (.string "x"))] }
    let limit : FieldPath := ⟨["limit"], by simp⟩
    let count : FieldPath := ⟨["count"], by simp⟩
    ∃ v, b.build none "rows.5.count" texts = .ok v ∧
      c.subject.IsUnsetFor v.rule.kind v.path ∧ c.subject.IsUnsetFor v.rule.kind limit ∧
      ¬ c.subject.IsUnsetFor v.rule.kind count ∧
      (∃ verdict, v.validate c = (.ok verdict, c) ∧ verdict.unset = true ∧
        verdict.codes.toList = ["GONE"]) ∧
      (∃ verdict, v.validate (c.withOverride limit) = (.ok verdict, c.withOverride limit) ∧
        verdict.unset = true ∧ verdict.codes.toList = ["GONE"]) ∧
      ∃ verdict c', v.validate (c.withOverride count) = (.ok verdict, c') ∧
        verdict.unset = false ∧ verdict.codes.toList = ["BOTH"] := by
  intro b texts c limit count
  have hbuilt : (b.build none "rows.5.count" texts).toOption.map (fun v =>
      (v.path, v.rule.kind, v.rule.defaultCode, (v.validate (c.withOverride count)).1)) =
        some (⟨["rows", "5", "count"], by simp⟩, .int, "INVALID",
          .ok (.present (Codes.ofList ["BOTH"]))) := by decide +kernel
  obtain ⟨v, hv, hbuilt⟩ := exists_of_toOption_map hbuilt
  simp only [Prod.mk.injEq] at hbuilt
  obtain ⟨hpath, hkind, hcode, hcount⟩ := hbuilt
  have hmissing : ((texts.filter Clause.requires).getLast?.map fun text =>
      (Clause.ofText text).codeAt 0 v.rule.defaultCode).toList = ["GONE"] := by
    rw [hcode]
    decide +kernel
  have hrow : c.subject.IsUnsetFor v.rule.kind v.path := by
    refine .inl ⟨⟨["rows", "5"], by simp⟩, ?_, rfl⟩
    rw [hpath]
    exact ⟨["count"], rfl⟩
  have hlimit : c.subject.IsUnsetFor v.rule.kind limit := .inr ⟨.int, by rw [hkind]; rfl, rfl⟩
  have hset : ¬ c.subject.IsUnsetFor v.rule.kind count := by
    rintro (⟨q, hq, hn⟩ | ⟨t, _, hfound⟩)
    · have hfound := Value.resolve_of_isPrefix hq hn
      cases (show Except.ok (some (Value.scalar (.int 9))) = _ from hfound)
    · cases (show Except.ok (some (Value.scalar (.int 9))) = _ from hfound)
  refine ⟨v, hv, hrow, hlimit, hset, ?_, ?_, ?_⟩
  · have hunset := (validate_unset hv c).1 hrow
    rwa [hmissing] at hunset
  · have hunset := (validate_unset hv (c.withOverride limit)).1 hlimit
    rwa [hmissing] at hunset
  · have hverdict : v.validate (c.withOverride count) =
        (.ok (.present (Codes.ofList ["BOTH"])), (v.validate (c.withOverride count)).2) :=
      Prod.ext hcount rfl
    exact ⟨_, _, hverdict, (validate_unset hv (c.withOverride count)).2 hset _ _ hverdict, rfl⟩

end FieldRules

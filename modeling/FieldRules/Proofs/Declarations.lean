import FieldRules.Proofs.Clausewise

/-! Declared kinds. Clauses with a declaration of the kind in front of them make what they make when
the kind is given. -/
namespace FieldRules

namespace Kind
variable {k : Kind} {c : Clause} {clauses : List Clause}

theorem detect_cons (hc : c.code = k.code) (field : String) :
    detect field (c :: clauses) =
      match (declared clauses).find? (· ≠ k) with
      | none => .ok k
      | some other => .error (.conflictingKinds field k other) := by
  have hdeclared : declared (c :: clauses) = k :: declared clauses := by
    rw [declared, List.filterMap_cons, hc, ofCode?_code]
    rfl
  cases hrest : (declared clauses).find? (· ≠ k) <;> simp only [detect, hdeclared, hrest]

/-- A declaration that names no code leaves the default code to the others. -/
theorem defaultCode_cons (hc : c.param 0 = "") (configured : String) :
    defaultCode k (c :: clauses) configured = defaultCode k clauses configured := by
  rw [defaultCode, defaultCode, List.filter_cons]
  split
  · rw [List.findSome?_cons, if_pos hc]
  · rfl

theorem mem_declared_iff {texts : List String} :
    k ∈ declared (texts.map Clause.ofText) ↔ ∃ text ∈ texts, Clause.codeOf text = k.code := by
  simp only [declared, List.mem_filterMap, List.mem_map, ofCode?_eq_some]
  constructor
  · rintro ⟨_, ⟨text, ht, rfl⟩, hcode⟩
    exact ⟨text, ht, hcode.symm⟩
  · rintro ⟨text, ht, hcode⟩
    exact ⟨_, ⟨text, ht, rfl⟩, hcode.symm⟩

end Kind

/-- The code of a kind is a clause that declares it. -/
theorem Clause.ofText_code (k : Kind) : ofText k.code = ⟨k.code, [], k.code⟩ := by
  cases k <;> rfl

namespace Scope
variable {sc : Scope} {c : Clause}

theorem part_code : sc.part ⟨sc.kind.code, [], sc.kind.code⟩ = .ok .declaration := by
  rw [part, if_pos (by simp [Clause.declares])]
  rfl

/-- A clause that declares a kind is read for that kind only. -/
theorem Reads.eq_kind {p : Part} {k : Kind} (h : sc.Reads c p) (hc : c.code = k.code) :
    k = sc.kind := by
  cases h with
  | declaration h => exact Kind.code_injective (hc.symm.trans h)
  | _ h => exact absurd (h.symm.trans hc) (Operation.code_ne_code _ k)

end Scope

namespace Builder
variable {b : Builder} {kind : Kind} {field : String} {texts : List String} {v : Validator}

theorem eq_of_mem_declared_of_ruleOfKind (hv : b.ruleOfKind kind field texts = .ok v) {k : Kind}
    (hk : k ∈ Kind.declared (texts.map Clause.ofText)) : k = kind := by
  obtain ⟨kind', parts, _, _, hkind, hparts, _⟩ := exists_parts_of_build hv
  obtain rfl : kind = kind' := Except.ok.inj hkind
  obtain ⟨text, ht, hcode⟩ := Kind.mem_declared_iff.1 hk
  obtain ⟨p, _, hp⟩ := exists_mem_of_mapM hparts ht
  exact (Scope.reads_of_part hp).eq_kind hcode

theorem eq_of_mem_declared_of_rule (hv : b.rule field (kind.code :: texts) = .ok v) {k : Kind}
    (hk : k ∈ Kind.declared (texts.map Clause.ofText)) : k = kind := by
  obtain ⟨kind', _, _, _, hkind, _⟩ := exists_parts_of_build hv
  rw [Option.elim, List.map_cons, Kind.detect_cons (by rw [Clause.ofText_code])] at hkind
  split at hkind
  · rename_i hnone
    simpa using List.find?_eq_none.1 hnone k hk
  · simp at hkind

theorem elim_detect_cons (h : ∀ k ∈ Kind.declared (texts.map Clause.ofText), k = kind) :
    (none : Option Kind).elim (Kind.detect field ((kind.code :: texts).map Clause.ofText)) .ok =
      .ok kind := by
  have hnone : (Kind.declared (texts.map Clause.ofText)).find? (· ≠ kind) = none :=
    List.find?_eq_none.2 fun k hk => by simp [h k hk]
  rw [Option.elim, List.map_cons, Kind.detect_cons (by rw [Clause.ofText_code]), hnone]

theorem scopeOf_cons (b : Builder) (kind : Kind) (field : String) (texts : List String) :
    b.scopeOf kind field (kind.code :: texts) = b.scopeOf kind field texts := by
  rw [scopeOf, scopeOf, scope, scope, List.map_cons,
    Kind.defaultCode_cons (by rw [Clause.ofText_code]; rfl)]

/-- Where no other kind is declared, giving the kind and declaring it come to the same. -/
theorem rule_cons (h : ∀ k ∈ Kind.declared (texts.map Clause.ofText), k = kind) :
    b.rule field (kind.code :: texts) = b.ruleOfKind kind field texts := by
  cases hp : FieldPath.parse field with
  | error e => rw [rule, ruleOfKind, build, build, hp]; rfl
  | ok path =>
    by_cases hblank : ∀ text ∈ texts, Clause.codeOf text ≠ ""
    · have hall : ∀ text ∈ kind.code :: texts, Clause.codeOf text ≠ "" :=
        List.forall_mem_cons.2 ⟨by cases kind <;> decide, hblank⟩
      have hpart : (b.scopeOf kind field texts).part (.ofText kind.code) = .ok .declaration := by
        rw [Clause.ofText_code]
        exact Scope.part_code
      -- The declaration adds nothing to the rule.
      rw [rule, ruleOfKind, build_eq hp hall (elim_detect_cons h), build_eq hp hblank rfl,
        partsOf, partsOf, scopeOf_cons, List.mapM_cons, hpart]
      simp only [bind_assoc]
      rfl
    · push Not at hblank
      obtain ⟨text, ht, hblank⟩ := hblank
      rw [rule, ruleOfKind, build_of_blank hp ht hblank,
        build_of_blank hp (List.mem_cons_of_mem _ ht) hblank]

/-- With a declaration of the kind in front, clauses make the validator that they make when the kind is
given, or none as they do then. Unless they declare another kind themselves they are refused for the
same reason. -/
theorem rule_declared (b : Builder) (kind : Kind) (field : String) (texts : List String) :
    (∀ v, b.rule field (kind.code :: texts) = .ok v ↔ b.ruleOfKind kind field texts = .ok v) ∧
    ((∀ text ∈ texts, ∀ other : Kind, Clause.codeOf text = other.code → other = kind) →
      b.rule field (kind.code :: texts) = b.ruleOfKind kind field texts) := by
  refine ⟨fun v => ⟨fun hv => ?_, fun hv => ?_⟩, fun h => rule_cons fun k hk => ?_⟩
  · rwa [← rule_cons fun k hk => eq_of_mem_declared_of_rule hv hk]
  · rwa [rule_cons fun k hk => eq_of_mem_declared_of_ruleOfKind hv hk]
  · obtain ⟨text, ht, hcode⟩ := Kind.mem_declared_iff.1 hk
    exact h text ht k hcode

/-- Declarations behind the first one may name the default code. One of another kind is refused in
both cases, but for different reasons. -/
theorem third_declaration_rule :
    let b : Builder := {}
    (∃ v, b.ruleOfKind .string "name" ["REQ", "STR", "STR:BAD", "LEN:1-2"] = .ok v ∧
      b.rule "name" ["STR", "REQ", "STR", "STR:BAD", "LEN:1-2"] = .ok v ∧
      v.rule.missing = some "BAD") ∧
    b.rule "name" ["STR", "REQ", "STR:BAD:WORSE"] =
      b.ruleOfKind .string "name" ["REQ", "STR:BAD:WORSE"] ∧
    b.ruleOfKind .string "name" ["REQ", "INT"] =
      .error (.unknownOperation "name" .string "INT" "INT") ∧
    b.rule "name" ["STR", "REQ", "INT"] = .error (.conflictingKinds "name" .string .int) := by
  intro b
  have hbuilt : (b.ruleOfKind .string "name" ["REQ", "STR", "STR:BAD", "LEN:1-2"]).toOption.map
      (·.rule.missing) = some (some "BAD") := by decide +kernel
  obtain ⟨v, hv, hmissing⟩ := exists_of_toOption_map hbuilt
  refine ⟨⟨v, hv, ((rule_declared b .string "name" _).1 v).2 hv, hmissing⟩,
    (rule_declared b .string "name" ["REQ", "STR:BAD:WORSE"]).2 ?_, ?_, ?_⟩
  · intro text ht other hcode
    obtain rfl | rfl : text = "REQ" ∨ text = "STR:BAD:WORSE" := by simpa using ht
    · cases other <;> exact absurd hcode (by decide +kernel)
    · cases other <;> first | rfl | exact absurd hcode (by decide +kernel)
  · have hrefused : (b.ruleOfKind .string "name" ["REQ", "INT"]).map (fun _ => ()) =
        .error (.unknownOperation "name" .string "INT" "INT") := by decide +kernel
    exact map_eq_error_iff.1 hrefused
  · have hrefused : (b.rule "name" ["STR", "REQ", "INT"]).map (fun _ => ()) =
        .error (.conflictingKinds "name" .string .int) := by decide +kernel
    exact map_eq_error_iff.1 hrefused

end Builder
end FieldRules

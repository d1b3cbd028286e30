import FieldRules.Proofs.Overriding

/-! Rules within rules. The rule for the elements of a list is the one that its shared rule makes on
its own, and every step of a rule, however deep, was read from a clause that its own clauses reach. -/
namespace FieldRules

namespace Rule

theorem sizeOf_lt_of_mem_chain {r e : Rule} (he : .elements e ∈ r.chain) : sizeOf e < sizeOf r := by
  have hmem := List.sizeOf_lt_of_mem he
  have hchain : sizeOf r.chain < sizeOf r := by
    cases r
    simp only [Rule.mk.sizeOf_spec]
    omega
  rw [Step.elements.sizeOf_spec] at hmem
  omega

/-- Of a rule it may be assumed of the rules for elements. -/
theorem nested_induction {motive : Rule → Prop}
    (rule : ∀ r : Rule, (∀ e, .elements e ∈ r.chain → motive e) → motive r) (r : Rule) :
    motive r :=
  rule r fun e _ => nested_induction rule e
termination_by sizeOf r
decreasing_by exact sizeOf_lt_of_mem_chain ‹_›

/-- The step stands in the rule or in a rule for elements within it. -/
inductive Has : Rule → Step → Prop
  | here {r : Rule} {s : Step} (h : s ∈ r.chain) : Has r s
  | inside {r e : Rule} {s : Step} (he : .elements e ∈ r.chain) (h : Has e s) : Has r s

theorem Has.trans {r e : Rule} {s : Step} (h : r.Has (.elements e)) (hs : s ∈ e.chain) :
    r.Has s := by
  generalize ht : Step.elements e = t at h
  induction h with
  | here h => exact .inside (ht ▸ h) (.here hs)
  | inside he _ ih => exact .inside he (ih ht)

/-- No rule stands within itself. -/
theorem Has.sizeOf_lt {r e : Rule} (h : r.Has (.elements e)) : sizeOf e < sizeOf r := by
  generalize ht : Step.elements e = t at h
  induction h with
  | here h => exact sizeOf_lt_of_mem_chain (ht ▸ h)
  | inside he _ ih => exact Nat.lt_trans (ih ht) (sizeOf_lt_of_mem_chain he)

theorem mem_chain_ofParts {kind : Kind} {code : String} {parts : List Part} {s : Step} :
    s ∈ (ofParts kind code parts).chain ↔ .step s ∈ parts := by
  rw [ofParts, List.mem_filterMap]
  constructor
  · rintro ⟨p, hp, h⟩
    cases p <;> simp_all [Part.step?]
  · intro h
    exact ⟨_, h, rfl⟩

end Rule

namespace Scope

section
variable {sc : Scope} {element : String → Except BuildError Rule} {c : Clause} {p : Part}

theorem operation_mono (h : ∀ name e, sc.element name = .ok e → element name = .ok e)
    {o : Operation} (hp : sc.operation c o = .ok p) :
    operation { sc with element := element } c o = .ok p := by
  obtain ⟨_, kind, _, _, _, _⟩ := sc
  cases kind <;> cases o
  case list.elements =>
    simp only [operation, bind_eq_ok_iff] at hp ⊢
    obtain ⟨n, hn, e, he, hp⟩ := hp
    exact ⟨n, hn, e, h _ _ he, hp⟩
  all_goals exact hp

theorem part_mono (h : ∀ name e, sc.element name = .ok e → element name = .ok e)
    (hp : sc.part c = .ok p) : part { sc with element := element } c = .ok p := by
  simp only [part] at hp ⊢
  by_cases hd : c.declares sc.kind = true
  · simpa only [hd, if_true] using hp
  · simp only [hd] at hp ⊢
    cases ho : Operation.ofCode? c.code with
    | none => simp [ho] at hp
    | some o =>
      simp only [ho] at hp ⊢
      exact operation_mono h hp

end

/-- What is added by a clause that names the shared rule for the elements. -/
theorem Reads.elements_of_code {sc : Scope} {c : Clause} {p : Part} (h : sc.Reads c p)
    (hc : c.code = Operation.elements.code) :
    ∃ name e, c.param? 0 = some name ∧ sc.element name = .ok e ∧ p = .step (.elements e) := by
  cases h with
  | declaration h => exact absurd (hc.symm.trans h) (Operation.code_ne_code _ _)
  | elements _ _ hn he => exact ⟨_, _, hn, he, rfl⟩
  | @test o t h ht =>
    obtain rfl := Operation.code_inj.1 (hc.symm.trans h)
    cases hk : sc.kind <;> simp [hk, test?] at ht
  | _ h => exact absurd (Operation.code_inj.1 (hc.symm.trans h)) (by simp)

end Scope

namespace Builder
variable {b : Builder} {element element' : String → Except BuildError Rule} {field : String}
  {kind? : Option Kind} {texts : List String} {r : Rule}

/-- What can be built stays as it is when more rules for elements can be. -/
theorem compile_mono (h : ∀ name e, element name = .ok e → element' name = .ok e)
    (hr : b.compile element field kind? texts = .ok r) :
    b.compile element' field kind? texts = .ok r := by
  have hparts : ∀ {kind : Kind} {clauses : List Clause} {parts : List Part},
      clauses.mapM (b.scope element field kind clauses).part = .ok parts →
        clauses.mapM (b.scope element' field kind clauses).part = .ok parts := fun hp =>
    mapM_eq_ok_iff.2 ((mapM_eq_ok_iff.1 hp).imp fun _ _ hc => Scope.part_mono h hc)
  cases kind? with
  | none =>
    simp only [compile, bind_eq_ok_iff] at hr ⊢
    obtain ⟨clauses, hc, kind, hk, parts, hp, hr⟩ := hr
    exact ⟨clauses, hc, kind, hk, parts, hparts hp, hr⟩
  | some kind =>
    simp only [compile, bind_eq_ok_iff] at hr ⊢
    obtain ⟨clauses, hc, kind, hk, parts, hp, hr⟩ := hr
    exact ⟨clauses, hc, kind, hk, parts, hparts hp, hr⟩

theorem sharedRule_mono {left left' : Entries (List String)} {name : String}
    (hleft : ∀ n t, left.get? n = some t → left'.get? n = some t)
    (h : b.sharedRule field left name = .ok r) : b.sharedRule field left' name = .ok r := by
  fun_induction Builder.sharedRule b field left name generalizing left' r with
  | case1 left name texts hname _ ih =>
    have hwithout : ∀ n t, (left.without name).get? n = some t →
        (left'.without name).get? n = some t := by
      intro n t ht
      rw [Entries.get?_without] at ht ⊢
      split at ht
      · simp at ht
      · rw [if_neg ‹_›]
        exact hleft n t ht
    rw [Builder.sharedRule]
    split
    · rename_i texts' htexts
      obtain rfl : texts = texts' := Option.some.inj ((hleft _ _ hname).symm.trans htexts)
      exact compile_mono (fun name' e he => ih name' hwithout he) h
    · rename_i hnone
      simp [hleft _ _ hname] at hnone
  | case2 => simp at h
  | case3 => simp at h

/-- A shared rule that can be built is what its clauses make on their own. -/
theorem compile_of_sharedRule {name : String}
    (h : b.sharedRule field b.shared name = .ok r) :
    ∃ shared, b.shared.get? name = some shared ∧
      b.compile (b.sharedRule field b.shared) field none shared = .ok r := by
  rw [Builder.sharedRule] at h
  split at h
  · rename_i shared hname
    refine ⟨shared, hname, compile_mono (fun name' e he => sharedRule_mono ?_ he) h⟩
    intro n t ht
    rw [Entries.get?_without] at ht
    split at ht
    · simp at ht
    · exact ht
  · split at h <;> simp at h

/-- The rule is made from the clauses, for some field. -/
def Makes (b : Builder) (texts : List String) (r : Rule) : Prop :=
  ∃ field kind?, b.compile (b.sharedRule field b.shared) field kind? texts = .ok r

theorem makes_of_build {v : Validator} (h : b.build kind? field texts = .ok v) :
    b.Makes texts v.rule :=
  ⟨field, kind?, (of_build_eq_ok h).2⟩

/-- Every step of a rule was read from a clause. -/
theorem Makes.exists_reads (h : b.Makes texts r) {s : Step} (hs : s ∈ r.chain) :
    ∃ c sc, c.IsIn texts ∧ Scope.Reads sc c (.step s) := by
  obtain ⟨field, kind?, h⟩ := h
  obtain ⟨clauses, kind, parts, hc, _, hp, rfl⟩ := of_compile_eq_ok h
  obtain ⟨c, hc, hr⟩ := exists_reads_of_mem hc hp (Rule.mem_chain_ofParts.1 hs)
  exact ⟨c, _, hc, hr⟩

/-- A rule for elements is made from the clauses of a shared rule that the clauses refer to. -/
theorem Makes.exists_shared (h : b.Makes texts r) {e : Rule} (he : .elements e ∈ r.chain) :
    ∃ name shared, RefersTo texts name ∧ b.shared.get? name = some shared ∧ b.Makes shared e := by
  obtain ⟨field, kind?, h⟩ := h
  obtain ⟨clauses, kind, parts, hc, _, hp, rfl⟩ := of_compile_eq_ok h
  obtain ⟨c, hcin, hr⟩ := exists_reads_of_mem hc hp (Rule.mem_chain_ofParts.1 he)
  cases hr with
  | elements hcode _ hn hel =>
    obtain ⟨shared, hs, hm⟩ := compile_of_sharedRule hel
    exact ⟨_, shared, ⟨c, hcin, hcode, hn⟩, hs, field, none, hm⟩

/-- Clauses that refer to a shared rule have the elements checked by what its clauses make. -/
theorem exists_element_of_refersTo {name : String}
    (h : b.compile (b.sharedRule field b.shared) field kind? texts = .ok r)
    (href : RefersTo texts name) :
    ∃ shared e, b.shared.get? name = some shared ∧
      b.compile (b.sharedRule field b.shared) field none shared = .ok e ∧
      .elements e ∈ r.chain := by
  obtain ⟨c, ⟨other, text, ht, hparse⟩, hcode, hn⟩ := href
  obtain ⟨clauses, kind, parts, hc, _, hp, rfl⟩ := of_compile_eq_ok h
  -- The clause is read alike, whichever field it was written for.
  obtain ⟨c', hc', hparse'⟩ := exists_mem_of_mapM hc ht
  obtain rfl : c = c' := by
    have := Clause.toOption_parse other field text
    simpa [hparse, hparse', Except.toOption] using this
  obtain ⟨p, hpm, hpart⟩ := exists_mem_of_mapM hp hc'
  obtain ⟨name', e, hn', he, rfl⟩ := (Scope.reads_of_part hpart).elements_of_code hcode
  obtain rfl : name = name' := Option.some.inj (hn.symm.trans hn')
  obtain ⟨shared, hs, hm⟩ := compile_of_sharedRule he
  exact ⟨shared, e, hs, hm, Rule.mem_chain_ofParts.2 hpm⟩

/-- The clause is one of those that are written, or of a shared rule that they reach. -/
def InReach (b : Builder) (texts : List String) (c : Clause) : Prop :=
  c.IsIn texts ∨ ∃ name shared, b.Reaches texts name ∧ b.shared.get? name = some shared ∧
    c.IsIn shared

theorem InReach.head {name : String} {shared : List String} {c : Clause} (hr : RefersTo texts name)
    (hs : b.shared.get? name = some shared) (h : b.InReach shared c) : b.InReach texts c := by
  rcases h with h | ⟨other, shared', ho, hs', h⟩
  · exact .inr ⟨name, shared, .first hr, hs, h⟩
  · exact .inr ⟨other, shared', ho.head hr hs, hs', h⟩

/-- Every step within a rule was read from a clause in reach. -/
theorem Makes.exists_inReach (h : b.Makes texts r) {s : Step} (hs : r.Has s) :
    ∃ c sc, b.InReach texts c ∧ Scope.Reads sc c (.step s) := by
  induction hs generalizing texts with
  | here hs =>
    obtain ⟨c, sc, hc, hr⟩ := h.exists_reads hs
    exact ⟨c, sc, .inl hc, hr⟩
  | inside he _ ih =>
    obtain ⟨name, shared, href, hshared, hm⟩ := h.exists_shared he
    obtain ⟨c, sc, hc, hr⟩ := ih hm
    exact ⟨c, sc, hc.head href hshared, hr⟩

end Builder
end FieldRules

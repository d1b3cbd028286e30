import FieldRules.Proofs.Breaking
import FieldRules.Proofs.Clausewise
import FieldRules.Proofs.Nesting

/-! Clauses that ask for a test. In any rule such a clause adds a step that raises its code where the
test fails. Alone it builds if its test can be read, and a check comes to that code or to none. -/
namespace FieldRules

namespace Scope
variable {sc : Scope} {c : Clause} {o : Operation} {test : Except BuildError Test}

theorem operation_of_test? (h : sc.test? c sc.kind o = some test) :
    sc.operation c o = sc.testPart c o := by
  cases o <;> cases hk : sc.kind <;> simp [hk, test?] at h <;> simp [operation, hk]

theorem part_of_test? (hcode : c.code = o.code) (h : sc.test? c sc.kind o = some test)
    (hlow : 1 ≤ c.params.length) (hhigh : c.params.length ≤ 2) :
    sc.part c = test.map fun t => .step (.test t (sc.codeAt c 1)) := by
  rw [part_of_code hcode, operation_of_test? h]
  unfold testPart Clause.countParams
  simp only [h, if_pos (And.intro hlow hhigh)]
  cases test <;> rfl

end Scope

theorem Kind.accepts_of_int {v : Value} {i : Int64} (h : v.int? = some i) :
    Kind.accepts .int v = true ∧ v.isUnset = false := by
  cases v with
  | scalar s => cases s <;> first | exact ⟨rfl, rfl⟩ | cases h
  | nilable s => cases s <;> first | exact ⟨rfl, rfl⟩ | cases h
  | _ => cases h

/-- A rule of one test raises its code where the test fails, and does nothing else. -/
theorem Rule.check_of_test {r : Rule} {field : FieldPath} {c : Context} {t : Test} {code : String}
    {found : Value} (hchain : r.chain = [.test t code])
    (hfound : c.subject.resolve (c.override.getD field) = .ok (some found))
    (hk : r.kind.accepts found = true) (hu : found.isUnset = false) :
    r.check field c = (.ok (.present (if t.holds found then ∅ else Codes.ofList [code])), c) := by
  rw [check_of_some hfound, if_neg (by simp [hk]), if_neg (by simp [hu]), hchain, checkChain_cons]
  cases ht : t.holds found <;> simp [Step.take, ht, checkChain, Progress.raise, Except.map]
  rfl

/-- The clause asks for the test, in whatever rule of the kind it stands. -/
structure Clause.AsksFor (text : String) (kind : Kind) (o : Operation) (b : Builder)
    (field : String) (test : Except BuildError Test) : Prop where
  code : codeOf text = o.code
  low : 1 ≤ (ofText text).params.length
  high : (ofText text).params.length ≤ 2
  test : ∀ texts, (b.scopeOf kind field texts).test? (ofText text) kind o = some test

namespace Clause
variable {text first : String} {code : List String} (hparams : (ofText text).params = first :: code)
include hparams

theorem param_zero : (ofText text).param 0 = first := by
  simp [param, param?, hparams]

/-- A first parameter says what to test, and a second one may give the code. -/
theorem asksFor_of_params {kind : Kind} {o : Operation} {b : Builder} {field : String}
    {test : Except BuildError Test} (hlen : code.length ≤ 1) (hcode : codeOf text = o.code)
    (htest : ∀ texts, (b.scopeOf kind field texts).test? (ofText text) kind o = some test) :
    AsksFor text kind o b field test where
  code := hcode
  low := by simp [hparams]
  high := by simp [hparams]; omega
  test := htest

end Clause

/-- Rules for the field that have the clause admit only the values that fit. Alone it builds, and a
check raises its code exactly at the values that do not fit. Among other clauses it adds a test for
them. The code may be the default one of the rule. -/
structure Clause.Admits {α : Type} (b : Builder) (kind : Kind) (field text : String)
    (code : String → String) (read : Value → Option α) (fits : α → Prop) : Prop where
  builds : ∃ v, b.ruleOfKind kind field [text] = .ok v
  alone : ∀ v, b.ruleOfKind kind field [text] = .ok v →
    ∀ (c : Context) (found : Value) (x : α),
      c.subject.resolve (c.override.getD v.path) = .ok (some found) → read found = some x →
      (fits x → v.validate c = (.ok (.present ∅), c)) ∧
      (¬ fits x →
        v.validate c = (.ok (.present (Codes.ofList [code v.rule.defaultCode])), c))
  among : ∀ texts v, text ∈ texts → b.ruleOfKind kind field texts = .ok v →
    ∃ t, .test t (code v.rule.defaultCode) ∈ v.rule.chain ∧
      ∀ found x, read found = some x → (t.holds found = true ↔ fits x)

namespace Clause.AsksFor
variable {b : Builder} {kind : Kind} {field text : String} {path : FieldPath} {o : Operation}
  {test : Except BuildError Test} (h : AsksFor text kind o b field test)
include h

theorem part_eq (texts : List String) :
    (b.scopeOf kind field texts).part (ofText text) =
      test.map fun t => .step (.test t ((b.scopeOf kind field texts).codeAt (ofText text) 1)) :=
  Scope.part_of_test? h.code (h.test texts) h.low h.high

theorem codeOf_ne_nil : codeOf text ≠ "" := by
  rw [h.code]
  cases o <;> decide

/-- Alone the clause makes a rule of the one test. -/
theorem ruleOfKind_eq (hp : FieldPath.parse field = .ok path) :
    b.ruleOfKind kind field [text] = test.map fun t =>
      ⟨path, Rule.ofParts kind (b.config.defaultCodes.ofKind kind)
        [.step (.test t ((ofText text).codeAt 1 (b.config.defaultCodes.ofKind kind)))]⟩ := by
  have hdeclares : ∀ c ∈ [text].map ofText, c.declares kind = false := by
    intro c hc
    obtain rfl := List.mem_singleton.1 hc
    simp [declares, h.code, o.code_ne_code]
  have hcode : (b.scopeOf kind field [text]).defaultCode = b.config.defaultCodes.ofKind kind := by
    rw [Builder.scopeOf, Builder.scope, Kind.defaultCode_of_not_declares hdeclares]
  rw [Builder.ruleOfKind, Builder.build_eq hp (by simpa using h.codeOf_ne_nil) rfl,
    Builder.partsOf, List.mapM_cons, List.mapM_nil, h.part_eq, Scope.codeAt, hcode]
  cases test <;> rfl

/-- Alone it raises its code where the test fails. -/
theorem exists_check {t : Test} (ht : test = .ok t) (hp : FieldPath.parse field = .ok path) :
    ∃ v, b.ruleOfKind kind field [text] = .ok v ∧ ∀ (c : Context) (found : Value),
      c.subject.resolve (c.override.getD v.path) = .ok (some found) →
      kind.accepts found = true ∧ found.isUnset = false →
      v.validate c = (.ok (.present (if t.holds found then ∅
        else Codes.ofList [(ofText text).codeAt 1 v.rule.defaultCode])), c) := by
  refine ⟨_, by rw [h.ruleOfKind_eq hp, ht]; rfl, ?_⟩
  rintro c found hfound ⟨hk, hu⟩
  exact Rule.check_of_test rfl hfound hk hu

/-- Among others it adds the step of its test. -/
theorem exists_step {texts : List String} {v : Validator} (ht : text ∈ texts)
    (hv : b.ruleOfKind kind field texts = .ok v) :
    ∃ t, test = .ok t ∧
      .test t ((ofText text).codeAt 1 v.rule.defaultCode) ∈ v.rule.chain := by
  obtain ⟨kind', parts, _, _, hk, hparts, hrule⟩ := Builder.exists_parts_of_build hv
  obtain rfl : kind = kind' := Except.ok.inj hk
  obtain ⟨p, hp, hpart⟩ := exists_mem_of_mapM hparts ht
  rw [h.part_eq] at hpart
  cases test with
  | error e => simp [Except.map] at hpart
  | ok t =>
    refine ⟨t, rfl, ?_⟩
    rw [hrule]
    apply Rule.mem_chain_ofParts.2
    rwa [← Except.ok.inj hpart] at hp

/-- If the test can be read and holds where values fit, the clause admits only these. -/
theorem admits {α : Type} {t : Test} {read : Value → Option α} {fits : α → Prop}
    (ht : test = .ok t) (hp : FieldPath.parse field = .ok path)
    (hread : ∀ found x, read found = some x → kind.accepts found = true ∧ found.isUnset = false)
    (hholds : ∀ found x, read found = some x → (t.holds found = true ↔ fits x)) :
    Admits b kind field text ((ofText text).codeAt 1) read fits := by
  obtain ⟨v, hv, hcheck⟩ := h.exists_check ht hp
  constructor
  · exact ⟨v, hv⟩
  · intro v' hv' c found x hfound hx
    obtain rfl : v = v' := Except.ok.inj (hv.symm.trans hv')
    rw [hcheck c found hfound (hread found x hx)]
    constructor
    · intro hfits
      rw [if_pos ((hholds found x hx).2 hfits)]
    · intro hfits
      rw [if_neg (mt (hholds found x hx).1 hfits)]
  · intro texts v' htexts hv'
    obtain ⟨t', ht', hstep⟩ := h.exists_step htexts hv'
    obtain rfl : t = t' := Except.ok.inj (ht.symm.trans ht')
    exact ⟨t, hstep, hholds⟩

end Clause.AsksFor

end FieldRules

import FieldRules.Proofs.Declarations
import FieldRules.Proofs.RaisedCodes

/-! Flags are the clauses that add no step: they declare the kind, require the field or stop the
evaluation. It makes no difference where among the steps they stand. -/
namespace FieldRules

section
variable {α β : Type} {as as' : List α} {p : α → Bool}

theorem filter_congr_of_filter {q : α → Bool} (h : as.filter p = as'.filter p)
    (hq : ∀ a, q a = true → p a = true) : as.filter q = as'.filter q := by
  have hboth : ∀ l : List α, l.filter q = (l.filter p).filter q := by
    intro l
    rw [List.filter_filter]
    refine List.filter_congr fun a _ => ?_
    cases hqa : q a with
    | false => rfl
    | true => rw [hq a hqa]; rfl
  rw [hboth, h, ← hboth]

theorem filterMap_congr_of_filter {f : α → Option β} (h : as.filter p = as'.filter p)
    (hf : ∀ a ∈ as, (f a).isSome = true → p a = true)
    (hf' : ∀ a ∈ as', (f a).isSome = true → p a = true) : as.filterMap f = as'.filterMap f := by
  have hfilter : ∀ l : List α, (∀ a ∈ l, (f a).isSome = true → p a = true) →
      (l.filter p).filterMap f = l.filterMap f := by
    intro l hl
    rw [List.filterMap_filter]
    refine List.filterMap_congr fun a ha => ?_
    cases hfa : f a with
    | none => split <;> rfl
    | some b => rw [if_pos (hl a ha (by simp [hfa]))]
  rw [← hfilter as hf, h, hfilter as' hf']

end

namespace Clause

def declaresKind (text : String) : Bool := (Kind.ofCode? (codeOf text)).isSome
def requires (text : String) : Bool := codeOf text = Operation.required.code
def stopsAll (text : String) : Bool := codeOf text = Operation.stopAll.code
def addsStep (text : String) : Bool := !declaresKind text && !requires text && !stopsAll text

end Clause

/-- The same clauses in another order. The steps among them have kept theirs, and so have those that
require the field and those that declare a kind. -/
structure Rearranges (texts texts' : List String) : Prop where
  perm : texts.Perm texts'
  steps : texts.filter Clause.addsStep = texts'.filter Clause.addsStep
  requirements : texts.filter Clause.requires = texts'.filter Clause.requires
  declarations : texts.filter Clause.declaresKind = texts'.filter Clause.declaresKind

namespace Rearranges
variable {texts texts' : List String} (h : Rearranges texts texts')
include h

theorem declared_eq :
    Kind.declared (texts.map Clause.ofText) = Kind.declared (texts'.map Clause.ofText) := by
  simp only [Kind.declared, List.filterMap_map, Function.comp_def, Clause.code_ofText]
  refine filterMap_congr_of_filter h.declarations ?_ ?_ <;>
  · intro text _ hk
    rwa [Clause.declaresKind]

theorem defaultCode_eq (k : Kind) (configured : String) :
    k.defaultCode (texts.map Clause.ofText) configured =
      k.defaultCode (texts'.map Clause.ofText) configured := by
  have hfilter : texts.filter (fun text => (Clause.ofText text).declares k) =
      texts'.filter fun text => (Clause.ofText text).declares k := by
    refine filter_congr_of_filter h.declarations fun text hk => ?_
    rw [Clause.declares, Clause.code_ofText, decide_eq_true_iff] at hk
    rw [Clause.declaresKind, hk, Kind.ofCode?_code]
    rfl
  simp only [Kind.defaultCode, List.filter_map, Function.comp_def, hfilter]

section
variable (kind : Kind) (code : String) (read : String → Part)

theorem chain_eq
    (hr : ∀ text ∈ texts, (read text).step?.isSome = true → Clause.addsStep text = true) :
    (Rule.ofParts kind code (texts'.map read)).chain =
      (Rule.ofParts kind code (texts.map read)).chain := by
  simp only [Rule.ofParts, List.filterMap_map, Function.comp_def]
  exact filterMap_congr_of_filter h.steps.symm
    (fun text ht => hr text (h.perm.mem_iff.2 ht)) hr

theorem missing_eq
    (hr : ∀ text ∈ texts, (read text).missing?.isSome = true → Clause.requires text = true) :
    (Rule.ofParts kind code (texts'.map read)).missing =
      (Rule.ofParts kind code (texts.map read)).missing := by
  simp only [Rule.ofParts, List.filterMap_map, Function.comp_def]
  rw [filterMap_congr_of_filter h.requirements.symm
    (fun text ht => hr text (h.perm.mem_iff.2 ht)) hr]

theorem stopAll_eq :
    (Rule.ofParts kind code (texts'.map read)).stopAll =
      (Rule.ofParts kind code (texts.map read)).stopAll :=
  (h.perm.map read).symm.any_eq

theorem mem_codes_iff (c : String) :
    c ∈ (Rule.ofParts kind code (texts'.map read)).codes.toList ↔
      c ∈ (Rule.ofParts kind code (texts.map read)).codes.toList := by
  simp only [Rule.ofParts, Codes.mem_ofList, List.mem_cons, List.mem_flatMap,
    (h.perm.map read).mem_iff]

end
end Rearranges

namespace Scope.Reads
variable {sc : Scope} {text : String} {p : Part}

theorem addsStep (h : sc.Reads (.ofText text) p) (hp : p.step?.isSome = true) :
    Clause.addsStep text = true := by
  cases p with
  | step s =>
    obtain ⟨o, hcode, hr, hs⟩ := h.exists_operation
    rw [Clause.code_ofText] at hcode
    simp [Clause.addsStep, Clause.declaresKind, Clause.requires, Clause.stopsAll, hcode,
      Kind.ofCode?_code_of_operation, Operation.code_inj, hr, hs]
  | _ => simp [Part.step?] at hp

theorem requires (h : sc.Reads (.ofText text) p) (hp : p.missing?.isSome = true) :
    Clause.requires text = true := by
  cases h with
  | required hcode => exact decide_eq_true hcode
  | _ => simp [Part.missing?] at hp

end Scope.Reads

/-- A check does not look at the codes of its rule, nor at whether it stops the evaluation. -/
theorem Rule.check_congr {r s : Rule} (hm : s.missing = r.missing) (hc : s.chain = r.chain)
    (hk : s.kind = r.kind) (field : FieldPath) (c : Context) :
    s.check field c = r.check field c := by
  obtain ⟨kind, code, missing, stopAll, codes, chain⟩ := r
  obtain ⟨_, code', _, stopAll', codes', _⟩ := s
  subst hk hm hc
  rw [check, check]

/-- Flags may stand anywhere. However clauses that build are rearranged, they build the same rule
again, but for the order in which its codes are listed, and all checks by it come to the same. -/
theorem build_rearranged {b : Builder} {kind? : Option Kind} {field : String}
    {texts texts' : List String} {v : Validator} (h : Rearranges texts texts')
    (hv : b.build kind? field texts = .ok v) :
    ∃ w, b.build kind? field texts' = .ok w ∧
      w.rule.kind = v.rule.kind ∧ w.rule.defaultCode = v.rule.defaultCode ∧
      w.rule.missing = v.rule.missing ∧ w.rule.stopAll = v.rule.stopAll ∧
      w.dependsOn = v.dependsOn ∧
      (∀ code, code ∈ w.rule.codes.toList ↔ code ∈ v.rule.codes.toList) ∧
      ∀ c, w.validate c = v.validate c := by
  obtain ⟨path, rule⟩ := v
  obtain ⟨kind, parts, hpath, hcode, hk, hp, rfl⟩ := Builder.exists_parts_of_build hv
  have : Nonempty Part := ⟨.declaration⟩
  obtain ⟨read, rfl, hread⟩ := exists_map_of_mapM hp
  have hreads : ∀ text ∈ texts, (b.scopeOf kind field texts).Reads (.ofText text) (read text) :=
    fun text ht => Scope.reads_of_part (hread text ht)
  have hbuilt := Builder.build_of_declared hpath (fun text ht => hcode text (h.perm.mem_iff.2 ht)) hk
    h.declared_eq.symm (fun configured => (h.defaultCode_eq kind configured).symm)
    (mapM_eq_ok_of_forall fun text ht => hread text (h.perm.mem_iff.2 ht))
  have hmissing := h.missing_eq kind (b.scopeOf kind field texts).defaultCode read
    fun text ht => (hreads text ht).requires
  have hchain := h.chain_eq kind (b.scopeOf kind field texts).defaultCode read
    fun text ht => (hreads text ht).addsStep
  refine ⟨_, hbuilt, rfl, rfl, hmissing, h.stopAll_eq kind _ read, rfl,
    h.mem_codes_iff kind _ read, Rule.check_congr hmissing hchain rfl path⟩

/-- The code for a missing field is the last one, and the default code the first one, wherever among
the steps they stand. -/
theorem scattered_flags_rearranged :
    let b : Builder := {}
    let texts := ["STR", "LEN:1-2", "REQ:MISSING", "TRIM", "STR:BAD", "STOPALL", "REQ"]
    let texts' := ["REQ:MISSING", "STOPALL", "LEN:1-2", "REQ", "STR", "TRIM", "STR:BAD"]
    let c : Context := { subject := .object [("name", .scalar (.string "abc "))] }
    Rearranges texts texts' ∧
    ∃ v w, b.build none "name" texts = .ok v ∧ b.build none "name" texts' = .ok w ∧
      w.rule.missing = some "BAD" ∧ w.rule.stopAll = true ∧
      (w.validate c).1 = .ok (.present (Codes.ofList ["BAD"])) ∧
      ∀ c, w.validate c = v.validate c := by
  intro b texts texts' c
  have h : Rearranges texts texts' := by
    constructor <;> decide +kernel
  have hbuilt : (b.build none "name" texts).toOption.map
      (fun v => (v.rule.missing, v.rule.stopAll, (v.validate c).1)) =
        some (some "BAD", true, .ok (.present (Codes.ofList ["BAD"]))) := by decide +kernel
  obtain ⟨v, hv, hrun⟩ := exists_of_toOption_map hbuilt
  simp only [Prod.mk.injEq] at hrun
  obtain ⟨w, hw, _, _, hmissing, hstopAll, _, _, hsame⟩ := build_rearranged h hv
  exact ⟨h, v, w, hv, hw, hmissing.trans hrun.1, hstopAll.trans hrun.2.1,
    (congrArg Prod.fst (hsame c)).trans hrun.2.2, hsame⟩

end FieldRules

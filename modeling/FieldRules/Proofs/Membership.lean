import FieldRules.Proofs.Escaping
import FieldRules.Proofs.Numerals
import FieldRules.Proofs.SingleTests
import FieldRules.Proofs.Strings

/-! Sets as clauses write them: the members stand between commas, and all of them are one parameter
between colons. Where both cuts find again what was written, the clause raises its code exactly at
the values that are no members. -/
namespace FieldRules

namespace Text
variable {sep : Char}

theorem escapeChars_eq_self {cs : List Char} (h : sep ∉ cs) : escapeChars sep cs = cs := by
  induction cs with
  | nil => rfl
  | cons c cs ih =>
    obtain ⟨hc, hcs⟩ := not_or.1 (mt List.mem_cons.2 h)
    rw [escapeChars, if_neg (Ne.symm hc), ih hcs]

theorem joinEscapedChars_eq_intercalate {parts : List (List Char)}
    (h : ∀ part ∈ parts, sep ∉ part) : joinEscapedChars sep parts = [sep].intercalate parts := by
  induction parts with
  | nil => rfl
  | cons part parts ih =>
    obtain ⟨hpart, hparts⟩ := List.forall_mem_cons.1 h
    cases parts with
    | nil => rw [joinEscapedChars, escapeChars_eq_self hpart, List.intercalate_singleton]
    | cons next parts =>
      rw [joinEscapedChars_cons _ (List.cons_ne_nil next parts), escapeChars_eq_self hpart,
        ih hparts, List.intercalate_cons_cons, List.append_assoc, List.singleton_append]

/-- Parts without separators are written as they are. -/
theorem joinEscaped_eq_intercalate {parts : List String} (h : ∀ part ∈ parts, sep ∉ part.toList) :
    joinEscaped sep parts = (String.singleton sep).intercalate parts := by
  apply String.toList_inj.1
  rw [joinEscaped, String.toList_ofList, String.toList_intercalate, String.toList_singleton]
  exact joinEscapedChars_eq_intercalate (List.forall_mem_map.2 h)

theorem Writes.head?_ne {signed : Bool} {cs : List Char} {n : Int} (h : Writes signed cs n)
    {c : Char} (hc : ¬(c.isDigit = true ∨ c = '+' ∨ c = '-')) : cs.head? ≠ some c := by
  intro hhead
  exact hc (h.isDigit_or_sign (List.mem_of_head? hhead))

/-- What is written for integers, each by itself. -/
def numerals (members : List Int64) : List String := members.map fun i => toString i.toInt

section
variable {members : List Int64}

theorem exists_writes_of_mem_numerals {numeral : String} (h : numeral ∈ numerals members) :
    ∃ n, Writes true numeral.toList n := by
  obtain ⟨i, _, rfl⟩ := List.mem_map.1 h
  exact ⟨i.toInt, writes_toString i.toInt⟩

theorem joinEscaped_numerals (members : List Int64) :
    joinEscaped ',' (numerals members) = ",".intercalate (numerals members) := by
  apply joinEscaped_eq_intercalate
  intro numeral hnumeral
  obtain ⟨n, hn⟩ := exists_writes_of_mem_numerals hnumeral
  exact mt hn.isDigit_or_sign (by decide)

theorem isCut_numerals (members : List Int64) :
    IsCut ',' ((numerals members).map String.toList) := by
  apply isCut_map_toList_iff.2
  constructor
  · intro numeral hnumeral
    obtain ⟨n, hn⟩ := exists_writes_of_mem_numerals (List.mem_of_mem_tail hnumeral)
    exact hn.head?_ne (by decide)
  · rintro numeral hnumeral rfl
    obtain ⟨n, hn⟩ := exists_writes_of_mem_numerals
      (List.mem_of_mem_tail (List.mem_of_mem_dropLast hnumeral))
    exact hn.ne_nil rfl

/-- Joined numerals begin as the first of them. -/
theorem joinEscaped_numerals_start (h : members ≠ []) :
    joinEscaped ',' (numerals members) ≠ "" ∧
      (joinEscaped ',' (numerals members)).toList.head? ≠ some ':' := by
  obtain ⟨i, members, rfl⟩ := List.exists_cons_of_ne_nil h
  have hi := writes_toString i.toInt
  have hhead : (joinEscaped ',' (numerals (i :: members))).toList.head? =
      (toString i.toInt).toList.head? := by
    rw [joinEscaped, String.toList_ofList]
    exact head?_joinEscapedChars_cons hi.ne_nil
  rw [hhead]
  refine ⟨?_, hi.head?_ne (by decide)⟩
  intro hempty
  rw [hempty] at hhead
  exact hi.ne_nil (List.head?_eq_none_iff.1 hhead.symm)

end
end Text

section
variable {sc : Scope} {text set code : String}

theorem Scope.test?_stringIn {members : List String} (h : Text.splitEscaped ',' set = members) :
    sc.test? ⟨"IN", [set, code], text⟩ .string .oneOf = some (.ok (.stringIn members)) := by
  rw [← h]
  rfl

/-- Members that are written as integers are read as these. -/
theorem Scope.test?_intIn {members : List Int64}
    (h : Text.splitEscaped ',' set = Text.numerals members) :
    sc.test? ⟨"IN", [set, code], text⟩ .int .oneOf = some (.ok (.intIn members)) := by
  have hread : sc.members ⟨"IN", [set, code], text⟩ .integer Text.integer? = .ok members := by
    rw [Scope.members, show Clause.param ⟨"IN", [set, code], text⟩ 0 = set from rfl, h]
    apply mapM_eq_ok_iff.2
    apply List.forall₂_map_left_iff.2
    apply List.forall₂_same.2
    intro i _
    rw [(Text.writes_toString i.toInt).trimChars_eq, Text.integer?_toString]
  rw [Scope.test?, hread]
  rfl

end

namespace Clause

/-- A clause whose parts can be found again has the first as its code, the others as parameters. -/
theorem ofText_joinEscaped {code : String} {params : List String}
    (h : Text.IsCut ':' ((code :: params).map String.toList)) :
    ofText (Text.joinEscaped ':' (code :: params)) =
      ⟨Text.trim code, params, Text.joinEscaped ':' (code :: params)⟩ := by
  have hsplit := (Text.splitEscaped_joinEscaped_iff (List.cons_ne_nil code params)).2 h
  rw [ofText, codeOf, hsplit]
  rfl

section
variable {b : Builder} {kind : Kind} {field text set code : String} {path : FieldPath} {t : Test}

theorem ofText_oneOf (hset : set ≠ "") (hsetStart : set.toList.head? ≠ some ':')
    (hcodeStart : code.toList.head? ≠ some ':') :
    ofText (Text.joinEscaped ':' ["IN", set, code]) =
      ⟨"IN", [set, code], Text.joinEscaped ':' ["IN", set, code]⟩ := by
  apply ofText_joinEscaped
  apply Text.isCut_map_toList_iff.2
  exact ⟨by simp [hsetStart, hcodeStart], by simp [hset]⟩

/-- A clause that asks for a test of the members admits only them. -/
theorem admits_of_test {α : Type} {read : Value → Option α} {members : List α}
    (htext : ofText text = ⟨"IN", [set, code], text⟩) (hp : FieldPath.parse field = .ok path)
    (hcode : code ≠ "")
    (htest : ∀ sc : Scope, sc.test? ⟨"IN", [set, code], text⟩ kind .oneOf = some (.ok t))
    (hread : ∀ found x, read found = some x → kind.accepts found = true ∧ found.isUnset = false)
    (hholds : ∀ found x, read found = some x → (t.holds found = true ↔ x ∈ members)) :
    Admits b kind field text (fun _ => code) read (· ∈ members) := by
  have hasks : AsksFor text kind .oneOf b field (.ok t) :=
    { code := by rw [← code_ofText, htext]; rfl
      low := by simp [htext]
      high := by simp [htext]
      test := fun texts => by rw [htext, htest (b.scopeOf kind field texts)] }
  have hcodeAt : (ofText text).codeAt 1 = fun _ => code := by
    funext default
    rw [htext]
    exact if_neg hcode
  have hadmits := hasks.admits rfl hp hread hholds
  rwa [hcodeAt] at hadmits

end
end Clause

/-- A set of strings is what its clause admits, whatever separators stand in them, if both cuts can
find them again: exactly these strings, with their blanks, in any order and however often. So is a set
of integers, written in decimal. -/
theorem validate_members (b : Builder) {field code : String} {path : FieldPath}
    (hp : FieldPath.parse field = .ok path) (hcode : code ≠ "")
    (hcodeStart : code.toList.head? ≠ some ':') :
    (∀ members : List String, members ≠ [] →
      (∀ member ∈ members.tail, member.toList.head? ≠ some ',') →
      (∀ member ∈ members.tail.dropLast, member ≠ "") →
      Text.joinEscaped ',' members ≠ "" →
      (Text.joinEscaped ',' members).toList.head? ≠ some ':' →
      Clause.Admits b .string field
        (Text.joinEscaped ':' ["IN", Text.joinEscaped ',' members, code]) (fun _ => code)
        Value.string? (· ∈ members)) ∧
    ∀ members : List Int64, members ≠ [] →
      Clause.Admits b .int field
        (Text.joinEscaped ':' ["IN", ",".intercalate (members.map fun i => toString i.toInt), code])
        (fun _ => code) Value.int? (· ∈ members) := by
  constructor
  · intro members hne hstarts hnonempty hset hsetStart
    have hsplit : Text.splitEscaped ',' (Text.joinEscaped ',' members) = members :=
      (Text.splitEscaped_joinEscaped_iff hne).2 (Text.isCut_map_toList_iff.2 ⟨hstarts, hnonempty⟩)
    apply Clause.admits_of_test (t := .stringIn members)
      (Clause.ofText_oneOf hset hsetStart hcodeStart) hp hcode
    · intro sc
      exact Scope.test?_stringIn hsplit
    · intro found x hx
      exact Kind.accepts_of_string hx
    · intro found x hx
      simp [Test.holds, hx]
  · intro members hne
    have hsplit : Text.splitEscaped ',' (Text.joinEscaped ',' (Text.numerals members)) =
        Text.numerals members :=
      (Text.splitEscaped_joinEscaped_iff (by simpa [Text.numerals] using hne)).2
        (Text.isCut_numerals members)
    obtain ⟨hset, hsetStart⟩ := Text.joinEscaped_numerals_start hne
    rw [show members.map (fun i => toString i.toInt) = Text.numerals members from rfl,
      ← Text.joinEscaped_numerals]
    apply Clause.admits_of_test (t := .intIn members)
      (Clause.ofText_oneOf hset hsetStart hcodeStart) hp hcode
    · intro sc
      exact Scope.test?_intIn hsplit
    · intro found x hx
      exact Kind.accepts_of_int hx
    · intro found x hx
      simp [Test.holds, hx]

/-- Both separators stand in the members and the second one also in the code. A member with a blank in
front of it is another string. -/
theorem separated_members_validate :
    let b : Builder := {}
    let names (x : String) : Context := { subject := .object [("name", .nilable (.string x))] }
    let numbers (i : Int64) : Context := { subject := .object [("name", .scalar (.int i))] }
    (∃ v, b.ruleOfKind .string "name" ["IN:x,,::,::y,x,,:::N::O"] = .ok v ∧
      v.validate (names ":y") = (.ok (.present ∅), names ":y") ∧
      v.validate (names " :y") = (.ok (.present (Codes.ofList ["N:O"])), names " :y")) ∧
    ∃ v, b.ruleOfKind .int "name" ["IN:-9223372036854775808,7,7:N::O"] = .ok v ∧
      v.validate (numbers Int64.minValue) = (.ok (.present ∅), numbers Int64.minValue) ∧
      v.validate (numbers 70) = (.ok (.present (Codes.ofList ["N:O"])), numbers 70) := by
  intro b names numbers
  have hname : FieldPath.parse "name" = .ok ⟨["name"], by simp⟩ := by rfl
  obtain ⟨hstrings, hintegers⟩ := validate_members b hname (show "N:O" ≠ "" by decide) (by decide)
  have hpath : ∀ {kind text v}, b.ruleOfKind kind "name" [text] = .ok v →
      v.path = ⟨["name"], by simp⟩ := by
    intro kind text v hv
    obtain ⟨_, _, hparse, _⟩ := Builder.exists_parts_of_build hv
    exact Except.ok.inj (hparse.symm.trans hname)
  constructor
  · have hadmits := hstrings ["x,:", ":y", "x,:"] (by decide) (by decide) (by decide) (by decide)
      (by decide)
    obtain ⟨v, hv⟩ := hadmits.builds
    refine ⟨v, hv, ?_, ?_⟩
    · exact (hadmits.alone v hv (names ":y") _ ":y" (by rw [hpath hv]; rfl) rfl).1 (by decide)
    · exact (hadmits.alone v hv (names " :y") _ " :y" (by rw [hpath hv]; rfl) rfl).2 (by decide)
  · have hadmits := hintegers [Int64.minValue, 7, 7] (by decide)
    obtain ⟨v, hv⟩ := hadmits.builds
    refine ⟨v, hv, ?_, ?_⟩
    · exact (hadmits.alone v hv (numbers Int64.minValue) _ Int64.minValue (by rw [hpath hv]; rfl)
        rfl).1 (by decide)
    · exact (hadmits.alone v hv (numbers 70) _ 70 (by rw [hpath hv]; rfl) rfl).2 (by decide)

end FieldRules

import FieldRules.Proofs.Numerals
import FieldRules.Proofs.SingleTests
import FieldRules.Proofs.Strings

/-! Intervals as clauses write them. A text gives an interval exactly if its two sides are blank or
numerals, and the clause raises its code exactly where the measure of a value lies outside. -/
namespace FieldRules

namespace Text
variable {sep : Char} {cs before after : List Char}

theorem splitOnce?_cons (sep c : Char) (cs : List Char) :
    splitOnce? sep (c :: cs) =
      if c = sep then some ([], cs) else (splitOnce? sep cs).map fun p => (c :: p.1, p.2) := by
  unfold splitOnce?
  by_cases h : c = sep
  · simp [h]
  · simp only [List.dropWhile_cons, List.takeWhile_cons, h, ne_eq, not_false_eq_true, decide_true,
      if_true, if_false]
    split <;> rfl

/-- The cut is at the first separator. -/
theorem splitOnce?_eq_some_iff :
    splitOnce? sep cs = some (before, after) ↔ cs = before ++ sep :: after ∧ sep ∉ before := by
  induction cs generalizing before with
  | nil => simp [splitOnce?]
  | cons c cs ih =>
    rw [splitOnce?_cons]
    cases before with
    | nil =>
      by_cases h : c = sep
      · simp [h]
      · simp [h]
    | cons d before =>
      by_cases h : c = sep
      · subst h
        simp only [if_true, Option.some.injEq, Prod.mk.injEq, reduceCtorEq, false_and, false_iff]
        rintro ⟨hcs, hnot⟩
        exact hnot (by rw [(List.cons.inj hcs).1]; exact List.mem_cons_self)
      · have hrec : (splitOnce? sep cs).map (fun p => (c :: p.1, p.2)) = some (d :: before, after) ↔
            c = d ∧ splitOnce? sep cs = some (before, after) := by
          cases splitOnce? sep cs <;> simp [Prod.ext_iff, and_assoc]
        rw [if_neg h, hrec, ih, List.cons_append, List.cons_eq_cons, List.mem_cons, not_or]
        constructor
        · rintro ⟨rfl, hcs, hnot⟩
          exact ⟨⟨rfl, hcs⟩, Ne.symm h, hnot⟩
        · rintro ⟨⟨rfl, hcs⟩, _, hnot⟩
          exact ⟨rfl, hcs, hnot⟩

end Text

namespace Bounds
variable {α : Type} [LE α] [DecidableLE α] {sep : Char} {read : List Char → Option α}

/-- Both sides of the first separator can be read, one of them gives an end, and ends are in order. -/
theorem parse?_eq_some_iff {s : String} {b : Bounds α} :
    parse? sep read s = some b ↔ ∃ before after,
      Text.splitOnce? sep s.toList = some (before, after) ∧ end? read before = some b.lower ∧
      (end? read after = some b.upper ∧ (b.lower ≠ none ∨ b.upper ≠ none) ∧
        ∀ l ∈ b.lower, ∀ u ∈ b.upper, l ≤ u) := by
  obtain ⟨lower, upper⟩ := b
  unfold parse?
  cases Text.splitOnce? sep s.toList with
  | none => simp
  | some sides =>
    obtain ⟨before, after⟩ := sides
    simp only [Option.some.injEq, Prod.mk.injEq, ↓existsAndEq, and_true, true_and]
    cases end? read before with
    | none => simp
    | some l =>
      cases end? read after with
      | none => cases l <;> simp
      | some u =>
        simp only [Option.some.injEq]
        constructor
        · intro h
          cases l with
          | none =>
            cases u with
            | none => cases h
            | some u => cases h; simp
          | some l =>
            cases u with
            | none => cases h; simp
            | some u =>
              obtain ⟨hle, h⟩ := Option.ite_none_right_eq_some.1 h
              cases h
              simpa using hle
        · rintro ⟨rfl, rfl, hgiven, hle⟩
          cases l with
          | none =>
            cases u with
            | none => simp at hgiven
            | some u => rfl
          | some l =>
            cases u with
            | none => rfl
            | some u => exact if_pos (hle l rfl u rfl)

end Bounds

/-- What bounds are given for. -/
inductive Measure
  | characters
  | elements
  | integer

namespace Measure

def kind : Measure → Kind
  | characters => .string
  | elements => .list
  | integer => .int

def operation : Measure → Operation
  | integer => .range
  | _ => .length

/-- What stands between the bounds: no minus sign where it may stand in front of one. -/
def sep : Measure → Char
  | integer => '|'
  | _ => '-'

def signed : Measure → Bool
  | integer => true
  | _ => false

def least : Measure → Int
  | integer => -0x8000000000000000
  | _ => 0

def most : Measure → Int
  | integer => 0x7fffffffffffffff
  | _ => 0xffffffffffffffff

/-- The measure of a value of the kind. -/
def of? : Measure → Value → Option Int
  | characters, v => v.string?.map fun s => s.length
  | elements, .list items => some items.length
  | elements, _ => none
  | integer, v => v.int?.map Int64.toInt

/-- One side of the separator: with nothing but blanks it leaves the end open. -/
inductive GivesEnd (m : Measure) (side : List Char) : Option Int → Prop
  | blank (h : Text.trimChars side = []) : GivesEnd m side none
  | numeral {n : Int} (h : Text.Writes m.signed (Text.trimChars side) n) (hlow : m.least ≤ n)
      (hhigh : n ≤ m.most) : GivesEnd m side (some n)

/-- The text gives an interval, with an end open or not. -/
structure Gives (m : Measure) (text : String) (lower upper : Option Int) : Prop where
  sides : ∃ before after, text.toList = before ++ m.sep :: after ∧ m.sep ∉ before ∧
    m.GivesEnd before lower ∧ m.GivesEnd after upper
  given : lower ≠ none ∨ upper ≠ none
  ordered : ∀ l ∈ lower, ∀ u ∈ upper, l ≤ u

/-- The measure lies between the ends that are given. -/
def Within (lower upper : Option Int) (n : Int) : Prop :=
  (∀ l ∈ lower, l ≤ n) ∧ ∀ u ∈ upper, n ≤ u

instance (lower upper : Option Int) (n : Int) : Decidable (Within lower upper n) :=
  inferInstanceAs (Decidable (_ ∧ _))

/-- The numerals of the measure are read as numbers that are ordered alike. -/
structure ReadBy {α : Type} [LE α] (m : Measure) (read : List Char → Option α) (f : α → Int) :
    Prop where
  read : ∀ cs n, (read cs).map f = some n ↔ Text.Writes m.signed cs n ∧ m.least ≤ n ∧ n ≤ m.most
  le : ∀ a b, a ≤ b ↔ f a ≤ f b

section
variable {α : Type} [LE α] {m : Measure} {read : List Char → Option α} {f : α → Int}
  (hr : m.ReadBy read f) {text : String} {lower upper : Option Int}
include hr

theorem ReadBy.end?_iff {side : List Char} {e : Option Int} :
    (Bounds.end? read side).map (Option.map f) = some e ↔ m.GivesEnd side e := by
  unfold Bounds.end?
  split
  · rename_i hblank
    constructor
    · rintro ⟨⟩
      exact .blank hblank
    · intro h
      cases h with
      | blank => rfl
      | numeral h =>
        rw [hblank] at h
        cases h with
        | digits h => simp [Text.isNumeral] at h
  · rename_i hfull
    rw [Option.map_map]
    constructor
    · intro h
      obtain ⟨a, ha, rfl⟩ := Option.map_eq_some_iff.1 h
      obtain ⟨hw, hlow, hhigh⟩ := (hr.read _ _).1 (congrArg (Option.map f) ha)
      exact .numeral hw hlow hhigh
    · intro h
      cases h with
      | blank h => exact absurd h hfull
      | numeral hw hlow hhigh =>
        obtain ⟨a, ha, hn⟩ := Option.map_eq_some_iff.1 ((hr.read _ _).2 ⟨hw, hlow, hhigh⟩)
        rw [ha, ← hn]
        rfl

variable [DecidableLE α]

theorem ReadBy.exists_gives {b : Bounds α} (hb : Bounds.parse? m.sep read text = some b) :
    ∃ lower upper, m.Gives text lower upper := by
  obtain ⟨before, after, hsplit, hl, hu, hgiven, horder⟩ := Bounds.parse?_eq_some_iff.1 hb
  obtain ⟨htext, hnot⟩ := Text.splitOnce?_eq_some_iff.1 hsplit
  refine ⟨b.lower.map f, b.upper.map f, ⟨before, after, htext, hnot, ?_, ?_⟩,
    by simpa using hgiven, ?_⟩
  · exact hr.end?_iff.1 (congrArg (Option.map (Option.map f)) hl)
  · exact hr.end?_iff.1 (congrArg (Option.map (Option.map f)) hu)
  · intro x hx y hy
    obtain ⟨l, hl, rfl⟩ := Option.map_eq_some_iff.1 hx
    obtain ⟨u, hu, rfl⟩ := Option.map_eq_some_iff.1 hy
    exact (hr.le l u).1 (horder l hl u hu)

theorem ReadBy.contains_iff (b : Bounds α) (x : α) :
    b.contains x = true ↔ Within (b.lower.map f) (b.upper.map f) (f x) := by
  obtain ⟨lower, upper⟩ := b
  cases lower <;> cases upper <;> simp [Bounds.contains, Within, hr.le]

/-- A text that gives an interval is read as this interval. -/
theorem ReadBy.exists_bounds (h : m.Gives text lower upper) :
    ∃ b, Bounds.parse? m.sep read text = some b ∧
      ∀ x, b.contains x = true ↔ Within lower upper (f x) := by
  obtain ⟨⟨before, after, htext, hnot, hlow, hupp⟩, hgiven, horder⟩ := h
  obtain ⟨l, hl, rfl⟩ := Option.map_eq_some_iff.1 (hr.end?_iff.2 hlow)
  obtain ⟨u, hu, rfl⟩ := Option.map_eq_some_iff.1 (hr.end?_iff.2 hupp)
  refine ⟨⟨l, u⟩, Bounds.parse?_eq_some_iff.2 ⟨before, after,
    Text.splitOnce?_eq_some_iff.2 ⟨htext, hnot⟩, hl, hu, by simpa using hgiven, ?_⟩,
    hr.contains_iff ⟨l, u⟩⟩
  intro x hx y hy
  exact (hr.le x y).2 (horder _ (Option.mem_map_of_mem f hx) _ (Option.mem_map_of_mem f hy))

end

theorem readBy_natural? {m : Measure} (hm : m ≠ .integer) : m.ReadBy Text.natural? Int.ofNat where
  read _ _ := by
    cases m with
    | integer => exact absurd rfl hm
    | _ => exact Text.map_natural?_eq_some_iff
  le _ _ := by simp

theorem readBy_integer? : integer.ReadBy Text.integer? Int64.toInt where
  read _ _ := Text.map_integer?_eq_some_iff
  le _ _ := Int64.le_iff_toInt_le

/-- The test that a text of bounds stands for. -/
def test? (m : Measure) (text : String) : Option Test :=
  match m with
  | integer => (Bounds.integers? text).map .intRange
  | _ => (Bounds.length? text).map .length

theorem exists_length {m : Measure} (hm : m ≠ .integer) {v : Value} {n : Int}
    (h : m.of? v = some n) : ∃ k : Nat, v.length? = some k ∧ Int.ofNat k = n := by
  cases m with
  | characters =>
    obtain ⟨x, hx, rfl⟩ := Option.map_eq_some_iff.1 h
    obtain rfl | rfl := Value.string?_eq_some_iff.1 hx <;> exact ⟨_, rfl, rfl⟩
  | elements =>
    cases v with
    | list items => exact ⟨items.length, rfl, Option.some.inj h⟩
    | _ => cases h
  | integer => exact absurd rfl hm

section
variable {m : Measure} {text : String} {lower upper : Option Int} {t : Test}

/-- The test of an interval holds of the values whose measure lies within. -/
theorem exists_test (h : m.Gives text lower upper) :
    ∃ t, m.test? text = some t ∧
      ∀ v n, m.of? v = some n → (t.holds v = true ↔ Within lower upper n) := by
  have hlength : m ≠ .integer → ∃ b, Bounds.parse? m.sep Text.natural? text = some b ∧
      ∀ v n, m.of? v = some n → ((Test.length b).holds v = true ↔ Within lower upper n) := by
    intro hm
    obtain ⟨b, hb, hin⟩ := (readBy_natural? hm).exists_bounds h
    refine ⟨b, hb, fun v n hn => ?_⟩
    obtain ⟨k, hk, rfl⟩ := exists_length hm hn
    rw [Test.holds, hk]
    exact hin k
  cases m with
  | integer =>
    obtain ⟨b, hb, hin⟩ := readBy_integer?.exists_bounds h
    refine ⟨.intRange b, congrArg (Option.map Test.intRange) hb, fun v n hn => ?_⟩
    obtain ⟨i, hi, rfl⟩ := Option.map_eq_some_iff.1 hn
    rw [Test.holds, hi]
    exact hin i
  | _ =>
    obtain ⟨b, hb, hin⟩ := hlength (by simp)
    exact ⟨.length b, congrArg (Option.map Test.length) hb, hin⟩

theorem exists_gives (h : m.test? text = some t) : ∃ lower upper, m.Gives text lower upper := by
  cases m with
  | integer =>
    obtain ⟨b, hb, _⟩ := Option.map_eq_some_iff.1 h
    exact readBy_integer?.exists_gives hb
  | _ =>
    obtain ⟨b, hb, _⟩ := Option.map_eq_some_iff.1 h
    exact (readBy_natural? (by simp)).exists_gives hb

theorem accepts_of_measure {v : Value} {n : Int} (h : m.of? v = some n) :
    m.kind.accepts v = true ∧ v.isUnset = false := by
  cases m with
  | characters =>
    obtain ⟨x, hx, _⟩ := Option.map_eq_some_iff.1 h
    exact Kind.accepts_of_string hx
  | elements =>
    cases v with
    | list items => exact ⟨rfl, rfl⟩
    | _ => cases h
  | integer =>
    obtain ⟨i, hi, _⟩ := Option.map_eq_some_iff.1 h
    exact Kind.accepts_of_int hi

end

/-- A clause of the measure with the text as its bounds asks for their test, or is refused for them. -/
theorem asksFor (m : Measure) (b : Builder) (field : String) {text bounds : String}
    {code : List String} (hcode : Clause.codeOf text = m.operation.code)
    (hparams : (Clause.ofText text).params = bounds :: code) (hlen : code.length ≤ 1) :
    Clause.AsksFor text m.kind m.operation b field (match m.test? bounds with
      | some t => .ok t
      | none => .error (.invalidRange field bounds text)) := by
  apply Clause.asksFor_of_params hparams hlen hcode
  intro texts
  have hbounds := Clause.param_zero hparams
  cases m with
  | integer =>
    simp only [kind, operation, Scope.test?, Scope.bounds, hbounds, test?]
    cases Bounds.integers? bounds <;> rfl
  | _ =>
    simp only [kind, operation, Scope.test?, Scope.bounds, hbounds, test?]
    cases Bounds.length? bounds <;> rfl

end Measure

/-- Bounds for the characters of strings, for the elements of lists and for integers. A clause builds
exactly if its bounds give an interval, and else it is refused for them. A check of a value raises the
code of the clause exactly if the measure of the value lies outside, and this is what the clause tests
in every rule that it stands in. -/
theorem validate_bounds (m : Measure) (b : Builder) {field text bounds : String} {path : FieldPath}
    {code : List String} (hp : FieldPath.parse field = .ok path)
    (hcode : Clause.codeOf text = m.operation.code)
    (hparams : (Clause.ofText text).params = bounds :: code) (hlen : code.length ≤ 1) :
    ((∃ v, b.ruleOfKind m.kind field [text] = .ok v) ↔
      ∃ lower upper, m.Gives bounds lower upper) ∧
    ((¬ ∃ lower upper, m.Gives bounds lower upper) →
      b.ruleOfKind m.kind field [text] = .error (.invalidRange field bounds text)) ∧
    ∀ lower upper, m.Gives bounds lower upper →
      Clause.Admits b m.kind field text ((Clause.ofText text).codeAt 1) m.of?
        (Measure.Within lower upper) := by
  have hasks := m.asksFor b field hcode hparams hlen
  have hbuilt := hasks.ruleOfKind_eq hp
  have hadmits : ∀ lower upper, m.Gives bounds lower upper → Clause.Admits b m.kind field text
      ((Clause.ofText text).codeAt 1) m.of? (Measure.Within lower upper) := by
    intro lower upper hgives
    obtain ⟨t, ht, hin⟩ := m.exists_test hgives
    rw [ht] at hasks
    exact hasks.admits rfl hp (fun found n hn => m.accepts_of_measure hn) hin
  refine ⟨⟨?_, ?_⟩, ?_, hadmits⟩
  · rintro ⟨v, hv⟩
    cases ht : m.test? bounds with
    | none => simp [hbuilt, ht, Except.map] at hv
    | some t => exact m.exists_gives ht
  · rintro ⟨lower, upper, hgives⟩
    exact (hadmits lower upper hgives).builds
  · intro hno
    cases ht : m.test? bounds with
    | none => rw [hbuilt, ht]; rfl
    | some t => exact absurd (m.exists_gives ht) hno

/-- Two to three characters, with a sign, leading zeros and blanks; a second minus sign; and integers
from the least one on. -/
theorem signed_bounds_validate :
    let b : Builder := {}
    let c : Context := { subject := .object [("name", .nilable (.string "äbcd"))] }
    let d : Context := { subject := .object [("name", .scalar (.int (-6)))] }
    Measure.characters.Gives " +2 -003" (some 2) (some 3) ∧
    (¬ ∃ lower upper, Measure.elements.Gives "-5-10" lower upper) ∧
    b.ruleOfKind .list "name" ["LEN:-5-10"] = .error (.invalidRange "name" "-5-10" "LEN:-5-10") ∧
    Measure.integer.Gives "-5|9223372036854775807" (some (-5)) (some 0x7fffffffffffffff) ∧
    (∃ v, b.ruleOfKind .string "name" [" LEN : +2 -003:SIZE"] = .ok v ∧
      v.validate c = (.ok (.present (Codes.ofList ["SIZE"])), c)) ∧
    ∃ v, b.ruleOfKind .int "name" ["RANGE:-5|9223372036854775807"] = .ok v ∧
      v.validate d = (.ok (.present (Codes.ofList ["INVALID"])), d) := by
  intro b c d
  have hname : FieldPath.parse "name" = .ok ⟨["name"], by simp⟩ := by rfl
  have hplus : Text.Writes false "+2".toList 2 := .plus (show Text.isNumeral ['2'] = true by decide)
  have hzeros : Text.Writes false "003".toList 3 := .digits (by decide)
  have hminus : Text.Writes true "-5".toList (-5) :=
    .minus rfl (show Text.isNumeral ['5'] = true by decide)
  have hmost : Text.Writes true "9223372036854775807".toList 0x7fffffffffffffff :=
    .digits (by decide)
  have hsize : Measure.characters.Gives " +2 -003" (some 2) (some 3) := by
    refine ⟨⟨" +2 ".toList, "003".toList, by decide, by decide, ?_, ?_⟩, .inl (by simp), by simp⟩
    · exact .numeral hplus (by decide) (by decide)
    · exact .numeral hzeros (by decide) (by decide)
  have hrange : Measure.integer.Gives "-5|9223372036854775807" (some (-5))
      (some 0x7fffffffffffffff) := by
    refine ⟨⟨"-5".toList, "9223372036854775807".toList, by decide, by decide, ?_, ?_⟩,
      .inl (by simp), by simp⟩
    · exact .numeral hminus (by decide) (by decide)
    · exact .numeral hmost (by decide) (by decide)
  have hstring : (b.ruleOfKind .string "name" [" LEN : +2 -003:SIZE"]).toOption.map
      (fun v => (v.path, v.rule.defaultCode)) = some (⟨["name"], by simp⟩, "INVALID") := by
    decide +kernel
  have hint : (b.ruleOfKind .int "name" ["RANGE:-5|9223372036854775807"]).toOption.map
      (fun v => (v.path, v.rule.defaultCode)) = some (⟨["name"], by simp⟩, "INVALID") := by
    decide +kernel
  obtain ⟨v, hv, hvbuilt⟩ := exists_of_toOption_map hstring
  obtain ⟨hvpath, hvcode⟩ := Prod.mk.inj hvbuilt
  obtain ⟨w, hw, hwbuilt⟩ := exists_of_toOption_map hint
  obtain ⟨hwpath, hwcode⟩ := Prod.mk.inj hwbuilt
  obtain ⟨_, _, hchecks⟩ := validate_bounds .characters b hname
    (show Clause.codeOf " LEN : +2 -003:SIZE" = "LEN" by decide +kernel)
    (show (Clause.ofText " LEN : +2 -003:SIZE").params = [" +2 -003", "SIZE"] by decide +kernel)
    (by decide)
  obtain ⟨_, _, hchecks'⟩ := validate_bounds .integer b hname
    (show Clause.codeOf "RANGE:-5|9223372036854775807" = "RANGE" by decide +kernel)
    (show (Clause.ofText "RANGE:-5|9223372036854775807").params = ["-5|9223372036854775807"] by
      decide +kernel) (by decide)
  obtain ⟨helements, hrefused, _⟩ := validate_bounds .elements b hname
    (show Clause.codeOf "LEN:-5-10" = "LEN" by decide +kernel)
    (show (Clause.ofText "LEN:-5-10").params = ["-5-10"] by decide +kernel) (by decide)
  have hno : ¬ ∃ lower upper, Measure.elements.Gives "-5-10" lower upper := by
    intro hgives
    obtain ⟨u, hu⟩ := helements.2 hgives
    have hfails : (b.ruleOfKind .list "name" ["LEN:-5-10"]).isOk = false := by decide +kernel
    rw [show b.ruleOfKind .list "name" ["LEN:-5-10"] = .ok u from hu] at hfails
    cases hfails
  have hlong := ((hchecks _ _ hsize).alone v hv c (.nilable (.string "äbcd")) 4
    (by rw [hvpath]; rfl) (by decide)).2 (by decide)
  have hsmall := ((hchecks' _ _ hrange).alone w hw d (.scalar (.int (-6))) (-6)
    (by rw [hwpath]; rfl) (by decide)).2 (by decide)
  rw [hvcode, show (Clause.ofText " LEN : +2 -003:SIZE").codeAt 1 "INVALID" = "SIZE" by
    decide +kernel] at hlong
  rw [hwcode, show (Clause.ofText "RANGE:-5|9223372036854775807").codeAt 1 "INVALID" = "INVALID" by
    decide +kernel] at hsmall
  exact ⟨hsize, hno, hrefused hno, hrange, ⟨v, hv, hlong⟩, w, hw, hsmall⟩

end FieldRules

import FieldRules.Proofs.Building
import FieldRules.Proofs.Intervals
import FieldRules.Proofs.Overriding
import FieldRules.Proofs.Rounding

/-! Integers in rules for floats. The clauses are those of rules for integers, but what stands in
them and the integers they are checked against are rounded first. What is admitted as an integer is
admitted as a float, and the rounding is all that can come in between. -/
namespace FieldRules
open Binary64 (ofInt Rounds)

/-- Integers that do not stand in nilables. Rules for integers and rules for floats take them. -/
def Value.bareInt? : Value → Option Int64
  | .scalar (.int i) => some i
  | _ => none

namespace Value
variable {v : Value} {i : Int64}

theorem bareInt?_eq_some_iff : v.bareInt? = some i ↔ v = .scalar (.int i) := by
  cases v with
  | scalar s => cases s <;> simp [bareInt?]
  | _ => simp [bareInt?]

theorem int?_of_bareInt? (h : v.bareInt? = some i) : v.int? = some i := by
  rw [bareInt?_eq_some_iff.1 h]
  rfl

theorem float?_of_bareInt? (h : v.bareInt? = some i) : v.float? = some (ofInt i.toInt) := by
  rw [bareInt?_eq_some_iff.1 h]
  rfl

theorem accepts_of_bareInt? (h : v.bareInt? = some i) :
    (Kind.accepts .int v = true ∧ v.isUnset = false) ∧
      Kind.accepts .float v = true ∧ v.isUnset = false := by
  rw [bareInt?_eq_some_iff.1 h]
  exact ⟨⟨rfl, rfl⟩, rfl, rfl⟩

end Value

theorem Binary64.rounds_toInt (i : Int64) : Rounds i.toInt (ofInt i.toInt) := by
  have hlow := i.le_toInt
  have hhigh := i.toInt_lt
  exact rounds_ofInt (by omega)

namespace Measure
variable {text : String} {lower upper : Option Int}

/-- The integer lies between the ends that are given, or beyond one that is rounded to the same
number. -/
def NearlyWithin (lower upper : Option Int) (n : Int) : Prop :=
  (∀ l ∈ lower, l ≤ n ∨ ofInt l = ofInt n) ∧ ∀ u ∈ upper, n ≤ u ∨ ofInt n = ofInt u

instance (lower upper : Option Int) (n : Int) : Decidable (NearlyWithin lower upper n) :=
  inferInstanceAs (Decidable (_ ∧ _))

theorem GivesEnd.natAbs_lt {side : List Char} {n : Int} (h : integer.GivesEnd side (some n)) :
    n.natAbs < 2 ^ 64 := by
  cases h with
  | numeral _ hlow hhigh =>
    simp only [least, most] at hlow hhigh
    omega

theorem GivesEnd.exists_rounds {side : List Char} {e : Option Int} (h : integer.GivesEnd side e) :
    ∃ x, Bounds.end? Binary64.finite? side = some x ∧ Option.Rel Rounds e x := by
  cases h with
  | blank h =>
    refine ⟨none, ?_, .none⟩
    rw [Bounds.end?, h]
  | numeral hw hlow hhigh =>
    obtain ⟨x, hx, hrounds⟩ :=
      Binary64.exists_rounds_of_writes hw (numeral hw hlow hhigh).natAbs_lt
    refine ⟨some x, ?_, .some hrounds⟩
    unfold Bounds.end?
    split
    · rename_i hblank
      exact absurd hblank hw.ne_nil
    · rw [hx]
      rfl

/-- An interval of integers is read as the one between the numbers nearest its ends. -/
theorem Gives.exists_floats (h : integer.Gives text lower upper) :
    ∃ b, Bounds.floats? text = some b ∧ Option.Rel Rounds lower b.lower ∧
      Option.Rel Rounds upper b.upper := by
  obtain ⟨⟨before, after, htext, hnot, hlow, hupp⟩, hgiven, horder⟩ := h
  obtain ⟨l, hl, hlrel⟩ := hlow.exists_rounds
  obtain ⟨u, hu, hurel⟩ := hupp.exists_rounds
  refine ⟨⟨l, u⟩, Bounds.parse?_eq_some_iff.2 ⟨before, after,
    Text.splitOnce?_eq_some_iff.2 ⟨htext, hnot⟩, hl, hu, ?_, ?_⟩, hlrel, hurel⟩
  · cases hlrel <;> cases hurel <;> simp at hgiven ⊢
  · intro x hx y hy
    cases hlrel with
    | none => cases hx
    | some hlr =>
      cases hurel with
      | none => cases hy
      | some hur =>
        cases hx
        cases hy
        exact (hlr.le_iff hur).2 (.inl (horder _ rfl _ rfl))

theorem contains_iff_nearlyWithin {b : Bounds Binary64} {n : Int} {x : Binary64}
    (hl : Option.Rel Rounds lower b.lower) (hu : Option.Rel Rounds upper b.upper)
    (hx : Rounds n x) : b.contains x = true ↔ NearlyWithin lower upper n := by
  obtain ⟨l, u⟩ := b
  unfold Bounds.contains NearlyWithin
  rw [Bool.and_eq_true]
  apply and_congr
  · cases hl with
    | none => simp
    | some hlr => simp [hlr.le_iff hx]
  · cases hu with
    | none => simp
    | some hur => simp [hx.le_iff hur]

theorem Gives.natAbs_lt (h : integer.Gives text lower upper) {n : Int}
    (hn : n ∈ lower ∨ n ∈ upper) : n.natAbs < 2 ^ 64 := by
  obtain ⟨⟨_, _, _, _, hlow, hupp⟩, _, _⟩ := h
  rcases hn with rfl | rfl
  · exact hlow.natAbs_lt
  · exact hupp.natAbs_lt

theorem Within.nearlyWithin {n : Int} (h : Within lower upper n) : NearlyWithin lower upper n :=
  ⟨fun l hl => .inl (h.1 l hl), fun u hu => .inl (h.2 u hu)⟩

/-- An end and an integer beyond it are rounded to different numbers where one of them is exact. -/
theorem NearlyWithin.within {i : Int64} (h : NearlyWithin lower upper i.toInt)
    (hgives : integer.Gives text lower upper)
    (hexact : i.toInt.natAbs < 2 ^ 53 ∨ ∀ n ∈ lower.toList ++ upper.toList, n.natAbs < 2 ^ 53) :
    Within lower upper i.toInt := by
  have hi := (Binary64.rounds_toInt i).fits
  have hexact : ∀ n, n ∈ lower ∨ n ∈ upper → i.toInt.natAbs < 2 ^ 53 ∨ n.natAbs < 2 ^ 53 :=
    fun n hn => hexact.imp_right fun hnumbers => hnumbers n (by simpa using hn)
  constructor
  · intro l hl
    rcases h.1 l hl with hle | heq
    · exact hle
    · exact Int.le_of_eq (Binary64.eq_of_ofInt_eq (hgives.natAbs_lt (.inl hl)) hi
        (hexact l (.inl hl)).symm heq)
  · intro u hu
    rcases h.2 u hu with hle | heq
    · exact hle
    · exact Int.le_of_eq (Binary64.eq_of_ofInt_eq hi (hgives.natAbs_lt (.inr hu))
        (hexact u (.inr hu)) heq)

end Measure

namespace Scope
variable {sc : Scope} {c : Clause}

theorem members_eq_ok {α : Type} {expected : LiteralType} {read : List Char → Option α}
    {as : List α} (h : List.Forall₂ (fun part a => read (Text.trimChars part.toList) = some a)
      (Text.splitEscaped ',' (c.param 0)) as) :
    sc.members c expected read = .ok as := by
  unfold members
  apply mapM_eq_ok_iff.2
  apply h.imp
  intro part a ha
  rw [ha]

end Scope

namespace Text

/-- The set consists of numerals of the members, which blanks may surround. -/
def WritesMembers (set : String) (members : List Int64) : Prop :=
  List.Forall₂ (fun part i => Writes true (trimChars part.toList) i.toInt) (splitEscaped ',' set)
    members

section
variable {set : String} {members : List Int64}

theorem WritesMembers.integers (h : WritesMembers set members) :
    List.Forall₂ (fun part i => integer? (trimChars part.toList) = some i) (splitEscaped ',' set)
      members := by
  apply h.imp
  intro part i hw
  have hlow := i.le_toInt
  have hhigh := i.toInt_lt
  rw [integer?_eq_of_writes hw (by omega) (by omega), Int64.ofInt_toInt]

/-- The members of a set of integers are read as the numbers nearest these. -/
theorem WritesMembers.exists_floats (h : WritesMembers set members) :
    ∃ xs, List.Forall₂ (fun part x => Binary64.finite? (trimChars part.toList) = some x)
        (splitEscaped ',' set) xs ∧
      List.Forall₂ (fun i x => Rounds i.toInt x) members xs := by
  unfold WritesMembers at h
  generalize splitEscaped ',' set = parts at h
  induction h with
  | nil => exact ⟨[], .nil, .nil⟩
  | @cons part i parts members hw _ ih =>
    obtain ⟨x, hx, hrounds⟩ :=
      Binary64.exists_rounds_of_writes hw (Binary64.rounds_toInt i).fits
    obtain ⟨xs, hxs, hrest⟩ := ih
    exact ⟨x :: xs, .cons hx hxs, .cons hrounds hrest⟩

end
end Text

theorem Binary64.any_same_iff {members : List Int64} {xs : List Binary64} {n : Int} {x : Binary64}
    (h : List.Forall₂ (fun i x => Rounds i.toInt x) members xs) (hx : Rounds n x) :
    xs.any x.same = true ↔ ∃ m ∈ members, ofInt n = ofInt m.toInt := by
  induction h with
  | nil => simp
  | cons hm _ ih => simp [hx.same_iff hm, ih]

/-- Rules for integers and rules for floats both take the clause. As the former it admits the integers
that fit, as the latter those that nearly fit. These are all that fit, and no more if either the
integer or all the numbers that stand in the clause are less than `2 ^ 53` from zero. -/
structure Clause.Widened (b : Builder) (field text : String) (numbers : List Int)
    (fits near : Int64 → Prop) : Prop where
  asInteger : Admits b .int field text ((ofText text).codeAt 1) Value.bareInt? fits
  asFloat : Admits b .float field text ((ofText text).codeAt 1) Value.bareInt? near
  near_of_fits : ∀ i, fits i → near i
  fits_of_near : ∀ i : Int64, (i.toInt.natAbs < 2 ^ 53 ∨ ∀ n ∈ numbers, n.natAbs < 2 ^ 53) →
    near i → fits i

namespace Clause
variable {b : Builder} {field text first : String} {path : FieldPath} {code : List String}

/-- A clause that asks for one test of integers and for another of floats. -/
theorem Widened.of_tests {o : Operation} {t u : Test} {numbers : List Int}
    {fits near : Int64 → Prop} (hp : FieldPath.parse field = .ok path)
    (hinteger : AsksFor text .int o b field (.ok t)) (hfloat : AsksFor text .float o b field (.ok u))
    (hfits : ∀ v i, v.bareInt? = some i → (t.holds v = true ↔ fits i))
    (hnear : ∀ v i, v.bareInt? = some i → (u.holds v = true ↔ near i))
    (hsound : ∀ i, fits i → near i)
    (hexact : ∀ i : Int64, (i.toInt.natAbs < 2 ^ 53 ∨ ∀ n ∈ numbers, n.natAbs < 2 ^ 53) →
      near i → fits i) :
    Widened b field text numbers fits near where
  asInteger := hinteger.admits rfl hp (fun _ _ hv => (Value.accepts_of_bareInt? hv).1) hfits
  asFloat := hfloat.admits rfl hp (fun _ _ hv => (Value.accepts_of_bareInt? hv).2) hnear
  near_of_fits := hsound
  fits_of_near := hexact

variable (hparams : (ofText text).params = first :: code) (hlen : code.length ≤ 1)
  (hp : FieldPath.parse field = .ok path)
include hparams hlen hp

/-- Bounds that are integers. -/
theorem widened_range {lower upper : Option Int} (hcode : codeOf text = Operation.range.code)
    (hgives : Measure.integer.Gives first lower upper) :
    Widened b field text (lower.toList ++ upper.toList)
      (fun i => Measure.Within lower upper i.toInt)
      (fun i => Measure.NearlyWithin lower upper i.toInt) := by
  obtain ⟨t, ht, hin⟩ := Measure.exists_test hgives
  obtain ⟨fb, hfb, hlow, hupp⟩ := hgives.exists_floats
  have hinteger : AsksFor text .int .range b field (.ok t) := by
    have hasks := Measure.integer.asksFor b field hcode hparams hlen
    rwa [ht] at hasks
  have hfloat : AsksFor text .float .range b field (.ok (.floatRange fb)) := by
    apply asksFor_of_params hparams hlen hcode
    intro texts
    rw [Scope.test?, Scope.bounds, param_zero hparams, hfb]
    rfl
  apply Widened.of_tests hp hinteger hfloat
  · intro v i hv
    exact hin v i.toInt (congrArg (Option.map Int64.toInt) (Value.int?_of_bareInt? hv))
  · intro v i hv
    rw [Test.holds, Value.float?_of_bareInt? hv]
    exact Measure.contains_iff_nearlyWithin hlow hupp (Binary64.rounds_toInt i)
  · intro i hi
    exact hi.nearlyWithin
  · intro i hexact hi
    exact hi.within hgives hexact

/-- Members that are integers. -/
theorem widened_oneOf {members : List Int64} (hcode : codeOf text = Operation.oneOf.code)
    (hwrites : Text.WritesMembers first members) :
    Widened b field text (members.map Int64.toInt) (· ∈ members)
      (fun i => ∃ m ∈ members, ofInt i.toInt = ofInt m.toInt) := by
  obtain ⟨xs, hreads, hrounds⟩ := hwrites.exists_floats
  have hset := param_zero hparams
  have hinteger : AsksFor text .int .oneOf b field (.ok (.intIn members)) := by
    apply asksFor_of_params hparams hlen hcode
    intro texts
    rw [Scope.test?, Scope.members_eq_ok (hset ▸ hwrites.integers)]
    rfl
  have hfloat : AsksFor text .float .oneOf b field (.ok (.floatIn xs)) := by
    apply asksFor_of_params hparams hlen hcode
    intro texts
    rw [Scope.test?, Scope.members_eq_ok (hset ▸ hreads)]
    rfl
  apply Widened.of_tests hp hinteger hfloat
  · intro v i hv
    simp [Test.holds, Value.int?_of_bareInt? hv]
  · intro v i hv
    rw [Test.holds, Value.float?_of_bareInt? hv]
    exact Binary64.any_same_iff hrounds (Binary64.rounds_toInt i)
  · intro i hi
    exact ⟨i, hi, rfl⟩
  · rintro i hexact ⟨m, hm, heq⟩
    have hexact : i.toInt.natAbs < 2 ^ 53 ∨ m.toInt.natAbs < 2 ^ 53 :=
      hexact.imp_right fun hnumbers => hnumbers _ (List.mem_map_of_mem hm)
    have hi := Binary64.eq_of_ofInt_eq (Binary64.rounds_toInt i).fits
      (Binary64.rounds_toInt m).fits hexact heq
    rwa [Int64.toInt_inj.1 hi]

end Clause

end FieldRules

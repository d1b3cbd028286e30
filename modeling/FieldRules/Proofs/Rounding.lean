import FieldRules.Binary64.Literal
import FieldRules.Proofs.Numerals
import Mathlib.Data.List.TakeWhile
import Mathlib.Data.Nat.Digits.Defs

/-! Integers of 64 bits as floating point numbers. Rounding keeps their order, and it keeps apart
whatever is less than `2 ^ 53` from zero and any other integer. A numeral is read as the number
nearest what it writes. -/
namespace FieldRules.Binary64

section
variable {m n d : Nat}

theorem le_nearest (n d : Nat) : n / d ≤ nearest n d := by
  unfold nearest
  dsimp only
  split
  · exact Nat.le_refl _
  · split
    · exact Nat.le_succ _
    · exact Nat.le_add_right _ _

theorem nearest_le (n d : Nat) : nearest n d ≤ n / d + 1 := by
  unfold nearest
  dsimp only
  split
  · exact Nat.le_succ _
  · split
    · exact Nat.le_refl _
    · have := Nat.mod_lt (n / d) (show 0 < 2 by decide)
      omega

@[simp] theorem nearest_one (n : Nat) : nearest n 1 = n := by simp [nearest, Nat.mod_one]

/-- Rounding to integers keeps the order. -/
theorem nearest_mono (h : m ≤ n) : nearest m d ≤ nearest n d := by
  rcases Nat.lt_or_eq_of_le (Nat.div_le_div_right (c := d) h) with hlt | heq
  · exact Nat.le_trans (nearest_le m d) (Nat.le_trans hlt (le_nearest n d))
  · have hr : m % d ≤ n % d := by
      have hm := Nat.div_add_mod m d
      have hn := Nat.div_add_mod n d
      rw [heq] at hm
      omega
    unfold nearest
    dsimp only
    rw [heq]
    split_ifs <;> omega

/-- The significand of the number nearest a natural number, counted in last places. -/
def roundedSignificand (n : Nat) : Nat := nearest (n <<< (52 - n.log2)) (1 <<< (n.log2 - 52))

/-- The magnitude of the number nearest a natural number. -/
def roundedMagnitude (n : Nat) : Nat :=
  if n = 0 then 0 else (n.log2 + 1022) * 2 ^ 52 + roundedSignificand n

theorem place_one (h : n ≠ 0) : place n 1 = (n.log2 : Int) - 52 := by
  have hlow := Nat.log2_self_le h
  have hlog : Nat.log2 1 = 0 := by decide
  have he : max ((n.log2 : Int) - ((0 : Nat) : Int) - 53) (-1074) = (n.log2 : Int) - 53 := by omega
  unfold place
  rw [if_neg h, hlog]
  dsimp only
  rw [he, if_neg]
  · omega
  · rw [Nat.not_lt, Nat.shiftLeft_eq, Nat.shiftLeft_eq, Nat.one_mul]
    calc 2 ^ (((n.log2 : Int) - 53).toNat + 53)
        = 2 ^ n.log2 * 2 ^ (-((n.log2 : Int) - 53)).toNat := by
          rw [← Nat.pow_add]
          congr 1
          omega
      _ ≤ n * 2 ^ (-((n.log2 : Int) - 53)).toNat := Nat.mul_le_mul_right _ hlow

theorem roundedSignificand_of_le (h : n.log2 ≤ 52) :
    roundedSignificand n = n * 2 ^ (52 - n.log2) := by
  rw [roundedSignificand, Nat.sub_eq_zero_of_le h, Nat.shiftLeft_zero, nearest_one,
    Nat.shiftLeft_eq]

theorem le_roundedSignificand (h : n ≠ 0) : 2 ^ 52 ≤ roundedSignificand n := by
  have hlow := Nat.log2_self_le h
  by_cases hn : n.log2 ≤ 52
  · rw [roundedSignificand_of_le hn]
    calc 2 ^ 52 = 2 ^ n.log2 * 2 ^ (52 - n.log2) := by
          rw [← Nat.pow_add, Nat.add_sub_cancel' hn]
      _ ≤ n * 2 ^ (52 - n.log2) := Nat.mul_le_mul_right _ hlow
  · apply Nat.le_trans _ (le_nearest _ _)
    rw [Nat.sub_eq_zero_of_le (Nat.le_of_not_le hn), Nat.shiftLeft_zero, Nat.shiftLeft_eq,
      Nat.one_mul, Nat.le_div_iff_mul_le (Nat.two_pow_pos _)]
    calc 2 ^ 52 * 2 ^ (n.log2 - 52) = 2 ^ (52 + (n.log2 - 52)) := by
          rw [Nat.pow_add]
      _ = 2 ^ n.log2 := by rw [Nat.add_sub_cancel' (Nat.le_of_not_le hn)]
      _ ≤ n := hlow

theorem roundedSignificand_lt (h : n < 2 ^ 53) :
    roundedSignificand n < 2 ^ 53 := by
  by_cases h0 : n = 0
  · subst h0
    decide
  have hlog : n.log2 ≤ 52 := Nat.le_of_lt_succ ((Nat.log2_lt h0).2 h)
  rw [roundedSignificand_of_le hlog]
  calc n * 2 ^ (52 - n.log2) < 2 ^ (n.log2 + 1) * 2 ^ (52 - n.log2) :=
        Nat.mul_lt_mul_of_pos_right Nat.lt_log2_self (Nat.two_pow_pos _)
    _ = 2 ^ 53 := by
        rw [← Nat.pow_add]
        congr 1
        omega

theorem roundedSignificand_le (n : Nat) : roundedSignificand n ≤ 2 ^ 53 := by
  by_cases hn : n.log2 ≤ 52
  · have hlt : n < 2 ^ 53 :=
      Nat.lt_of_lt_of_le Nat.lt_log2_self (Nat.pow_le_pow_right Nat.two_pos (by omega))
    exact Nat.le_of_lt (roundedSignificand_lt hlt)
  · apply Nat.le_trans (nearest_le _ _)
    rw [Nat.sub_eq_zero_of_le (Nat.le_of_not_le hn), Nat.shiftLeft_zero, Nat.shiftLeft_eq,
      Nat.one_mul]
    apply Nat.div_lt_of_lt_mul
    calc n < 2 ^ (n.log2 + 1) := Nat.lt_log2_self
      _ = 2 ^ (n.log2 - 52) * 2 ^ 53 := by
          rw [← Nat.pow_add]
          congr 1
          omega

/-- Up to the next power of two after them, numbers have the same last place. Whatever comes behind
has a larger magnitude. -/
theorem roundedMagnitude_le_of_log2_lt (h : m.log2 < n.log2) :
    (m.log2 + 1022) * 2 ^ 52 + 2 ^ 53 ≤ roundedMagnitude n := by
  have hn : n ≠ 0 := by
    rintro rfl
    simp at h
  rw [roundedMagnitude, if_neg hn]
  calc (m.log2 + 1022) * 2 ^ 52 + 2 ^ 53 = (m.log2 + 1 + 1022) * 2 ^ 52 + 2 ^ 52 := by omega
    _ ≤ (n.log2 + 1022) * 2 ^ 52 + roundedSignificand n :=
        Nat.add_le_add (Nat.mul_le_mul_right _ (Nat.add_le_add_right h _)) (le_roundedSignificand hn)

theorem roundedMagnitude_pos (h : n ≠ 0) : 0 < roundedMagnitude n := by
  have := le_roundedSignificand h
  rw [roundedMagnitude, if_neg h]
  omega

/-- Rounding keeps the order. -/
theorem roundedMagnitude_mono (h : m ≤ n) : roundedMagnitude m ≤ roundedMagnitude n := by
  by_cases hm : m = 0
  · rw [hm, roundedMagnitude, if_pos rfl]
    exact Nat.zero_le _
  have hn : n ≠ 0 := by omega
  have hlog : m.log2 ≤ n.log2 :=
    (Nat.le_log2 hn).2 (Nat.le_trans (Nat.log2_self_le hm) h)
  rcases Nat.lt_or_eq_of_le hlog with hlt | heq
  · have hnext := roundedMagnitude_le_of_log2_lt hlt
    have hle := roundedSignificand_le m
    rw [roundedMagnitude, if_neg hm]
    omega
  · have hle : roundedSignificand m ≤ roundedSignificand n := by
      unfold roundedSignificand
      simp only [heq, Nat.shiftLeft_eq]
      exact nearest_mono (Nat.mul_le_mul_right _ h)
    rw [roundedMagnitude, roundedMagnitude, if_neg hm, if_neg hn, heq]
    omega

/-- Below `2 ^ 53` numbers are exact, and so less than all that come behind. -/
theorem roundedMagnitude_lt (h : m < n) (hm : m < 2 ^ 53) :
    roundedMagnitude m < roundedMagnitude n := by
  have hn : n ≠ 0 := by omega
  by_cases h0 : m = 0
  · rw [h0, roundedMagnitude, if_pos rfl]
    exact roundedMagnitude_pos hn
  have hlog : m.log2 ≤ n.log2 :=
    (Nat.le_log2 hn).2 (Nat.le_trans (Nat.log2_self_le h0) (Nat.le_of_lt h))
  rcases Nat.lt_or_eq_of_le hlog with hlt | heq
  · have hnext := roundedMagnitude_le_of_log2_lt hlt
    have hsig := roundedSignificand_lt hm
    rw [roundedMagnitude, if_neg h0]
    omega
  · have hexact : m.log2 ≤ 52 := Nat.le_of_lt_succ ((Nat.log2_lt h0).2 hm)
    have hsig : roundedSignificand m < roundedSignificand n := by
      rw [roundedSignificand_of_le hexact, roundedSignificand_of_le (heq ▸ hexact), heq]
      exact Nat.mul_lt_mul_of_pos_right h (Nat.two_pow_pos _)
    rw [roundedMagnitude, roundedMagnitude, if_neg h0, if_neg hn, heq]
    omega

theorem roundedMagnitude_lt_infinite (h : n < 2 ^ 64) : roundedMagnitude n < infinite := by
  by_cases h0 : n = 0
  · subst h0
    decide
  have hlog : n.log2 < 64 := (Nat.log2_lt h0).2 h
  have hle := roundedSignificand_le n
  have hplace : (n.log2 + 1022) * 2 ^ 52 ≤ 1085 * 2 ^ 52 := Nat.mul_le_mul_right _ (by omega)
  rw [roundedMagnitude, if_neg h0, infinite]
  omega

theorem ofRatio_one (negative : Bool) (h : n < 2 ^ 64) :
    ofRatio negative n 1 = ofMagnitude negative (roundedMagnitude n) := by
  have hlt := roundedMagnitude_lt_infinite h
  by_cases h0 : n = 0
  · subst h0
    cases negative <;> rfl
  have hup : (-((n.log2 : Int) - 52)).toNat = 52 - n.log2 := by omega
  have hdown : ((n.log2 : Int) - 52).toNat = n.log2 - 52 := by omega
  have hplace : ((n.log2 : Int) - 52 + 1074).toNat = n.log2 + 1022 := by omega
  unfold ofRatio
  dsimp only
  rw [place_one h0, hup, hdown, hplace, Nat.shiftLeft_eq (n.log2 + 1022), ← roundedSignificand]
  rw [roundedMagnitude, if_neg h0] at hlt ⊢
  rw [Nat.min_eq_left (Nat.le_of_lt hlt)]

end

section
variable {negative : Bool} {m : Nat}

theorem toNat_bits_ofMagnitude (h : m < 2 ^ 63) : (ofMagnitude negative m).bits.toNat =
    if negative then 0x8000000000000000 + m else m := by
  rw [ofMagnitude, UInt64.toNat_ofNat']
  cases negative <;> simp <;> omega

theorem magnitude_ofMagnitude (h : m < 2 ^ 63) : (ofMagnitude negative m).magnitude = m := by
  rw [magnitude, toNat_bits_ofMagnitude h]
  cases negative <;> simp <;> omega

theorem negative_ofMagnitude (h : m < 2 ^ 63) : (ofMagnitude negative m).negative = negative := by
  rw [Binary64.negative, toNat_bits_ofMagnitude h]
  cases negative with
  | false => simpa using h
  | true => simp

theorem key_ofMagnitude (h : m < 2 ^ 63) :
    (ofMagnitude negative m).key = if negative then -(m : Int) else m := by
  rw [key, negative_ofMagnitude h, magnitude_ofMagnitude h]

end

theorem key_ofRatio_one (negative : Bool) {n : Nat} (h : n < 2 ^ 64) :
    (ofRatio negative n 1).key =
      if negative then -(roundedMagnitude n : Int) else roundedMagnitude n := by
  have hlt := roundedMagnitude_lt_infinite h
  rw [ofRatio_one negative h, key_ofMagnitude (Nat.lt_trans hlt (by decide))]

theorem isFinite_ofRatio_one (negative : Bool) {n : Nat} (h : n < 2 ^ 64) :
    (ofRatio negative n 1).isFinite = true := by
  have hlt := roundedMagnitude_lt_infinite h
  rw [ofRatio_one negative h, isFinite, magnitude_ofMagnitude (Nat.lt_trans hlt (by decide))]
  exact decide_eq_true hlt

theorem same_eq_true_iff {x y : Binary64} :
    x.same y = true ↔ x.isNaN = false ∧ y.isNaN = false ∧ x.key = y.key := by
  simp [same, and_assoc]

section
variable {i j : Int} (hi : i.natAbs < 2 ^ 64) (hj : j.natAbs < 2 ^ 64)
include hi

theorem key_ofInt : (ofInt i).key =
    if i < 0 then -(roundedMagnitude i.natAbs : Int) else roundedMagnitude i.natAbs := by
  rw [ofInt, key_ofRatio_one _ hi]
  simp only [decide_eq_true_eq]

theorem isNaN_ofInt : (ofInt i).isNaN = false := isNaN_of_isFinite (isFinite_ofRatio_one _ hi)

include hj

theorem key_ofInt_mono (h : i ≤ j) : (ofInt i).key ≤ (ofInt j).key := by
  rw [key_ofInt hi, key_ofInt hj]
  by_cases hneg : j < 0
  · have := roundedMagnitude_mono (show j.natAbs ≤ i.natAbs by omega)
    rw [if_pos hneg, if_pos (by omega)]
    omega
  · rw [if_neg hneg]
    split
    · omega
    · have := roundedMagnitude_mono (show i.natAbs ≤ j.natAbs by omega)
      omega

/-- The order is strict if one of the two is less than `2 ^ 53` from zero, and so exact. -/
theorem key_ofInt_lt (h : i < j) (hexact : i.natAbs < 2 ^ 53 ∨ j.natAbs < 2 ^ 53) :
    (ofInt i).key < (ofInt j).key := by
  rw [key_ofInt hi, key_ofInt hj]
  by_cases hneg : j < 0
  · have := roundedMagnitude_lt (show j.natAbs < i.natAbs by omega) (by omega)
    rw [if_pos hneg, if_pos (by omega)]
    omega
  · rw [if_neg hneg]
    split
    · have := roundedMagnitude_pos (show i.natAbs ≠ 0 by omega)
      omega
    · have := roundedMagnitude_lt (show i.natAbs < j.natAbs by omega) (by omega)
      omega

/-- There is one zero among the numbers that come from integers, so equal ones are the same. -/
theorem ofInt_eq_of_key_eq (h : (ofInt i).key = (ofInt j).key) : ofInt i = ofInt j := by
  rw [key_ofInt hi, key_ofInt hj] at h
  have hsign : i < 0 ↔ j < 0 := by
    have hpos : ∀ {n : Int}, n < 0 → 0 < roundedMagnitude n.natAbs :=
      fun hn => roundedMagnitude_pos (by omega)
    constructor
    · intro hneg
      by_contra hj0
      have := hpos hneg
      rw [if_pos hneg, if_neg hj0] at h
      omega
    · intro hneg
      by_contra hi0
      have := hpos hneg
      rw [if_neg hi0, if_pos hneg] at h
      omega
  have hmagnitude : roundedMagnitude i.natAbs = roundedMagnitude j.natAbs := by
    by_cases hneg : i < 0
    · rw [if_pos hneg, if_pos (hsign.1 hneg)] at h
      omega
    · rw [if_neg hneg, if_neg (mt hsign.2 hneg)] at h
      omega
  rw [ofInt, ofInt, ofRatio_one _ hi, ofRatio_one _ hj, hmagnitude, decide_eq_decide.2 hsign]

/-- An integer less than `2 ^ 53` from zero shares its number with no other. -/
theorem eq_of_ofInt_eq (hexact : i.natAbs < 2 ^ 53 ∨ j.natAbs < 2 ^ 53)
    (h : ofInt i = ofInt j) : i = j := by
  rcases Int.lt_trichotomy i j with hlt | heq | hlt
  · have := key_ofInt_lt hi hj hlt hexact
    rw [h] at this
    omega
  · exact heq
  · have := key_ofInt_lt hj hi hlt hexact.symm
    rw [h] at this
    omega

end

/-- The number is equal to the one nearest the integer, whose magnitude has 64 bits. -/
structure Rounds (i : Int) (x : Binary64) : Prop where
  fits : i.natAbs < 2 ^ 64
  same : x.same (ofInt i) = true

section
variable {i j : Int} {x y : Binary64}

theorem rounds_ofInt (h : i.natAbs < 2 ^ 64) : Rounds i (ofInt i) :=
  ⟨h, same_eq_true_iff.2 ⟨isNaN_ofInt h, isNaN_ofInt h, rfl⟩⟩

/-- Integers that are out of order are told to be in order only where one number is nearest both. -/
theorem Rounds.le_iff (hx : Rounds i x) (hy : Rounds j y) :
    x ≤ y ↔ i ≤ j ∨ ofInt i = ofInt j := by
  obtain ⟨hxnan, _, hxkey⟩ := same_eq_true_iff.1 hx.same
  obtain ⟨hynan, _, hykey⟩ := same_eq_true_iff.1 hy.same
  have hkeys : x ≤ y ↔ (ofInt i).key ≤ (ofInt j).key := by
    rw [← hxkey, ← hykey]
    exact ⟨fun h => h.2.2, fun h => ⟨hxnan, hynan, h⟩⟩
  rw [hkeys]
  constructor
  · intro h
    by_cases hle : i ≤ j
    · exact .inl hle
    · have hback := key_ofInt_mono hy.fits hx.fits (Int.le_of_lt (Int.not_le.1 hle))
      exact .inr (ofInt_eq_of_key_eq hx.fits hy.fits (Int.le_antisymm h hback))
  · rintro (hle | heq)
    · exact key_ofInt_mono hx.fits hy.fits hle
    · rw [heq]

theorem Rounds.same_iff (hx : Rounds i x) (hy : Rounds j y) :
    x.same y = true ↔ ofInt i = ofInt j := by
  obtain ⟨hxnan, _, hxkey⟩ := same_eq_true_iff.1 hx.same
  obtain ⟨hynan, _, hykey⟩ := same_eq_true_iff.1 hy.same
  rw [same_eq_true_iff, hxkey, hykey]
  constructor
  · rintro ⟨_, _, hkey⟩
    exact ofInt_eq_of_key_eq hx.fits hy.fits hkey
  · intro h
    exact ⟨hxnan, hynan, congrArg key h⟩

end

section
variable {negative : Bool} {ds : List Char}

theorem ofDecimal_zero {n : Nat} (h : n < 2 ^ 64) :
    ofDecimal negative n 0 = ofRatio negative n 1 := by
  have hplaces : (Nat.toDigits 10 n).length ≤ 20 :=
    Nat.toDigits_length 10 n 20 (by decide) (Nat.lt_trans h (by decide))
  unfold ofDecimal
  dsimp only
  by_cases h0 : n = 0
  · rw [if_pos (.inl h0), h0, ofRatio_one negative (by decide)]
    rfl
  · rw [if_neg (by omega), if_neg (by omega)]
    simp

theorem toLower_of_isDigit {c : Char} (h : c.isDigit = true) : c.toLower = c := by
  have hupper : ¬ (c.val ≥ 'A'.val ∧ c.val ≤ 'Z'.val) := by
    simp only [Char.isDigit, Bool.and_eq_true, decide_eq_true_eq] at h
    rintro ⟨hA, _⟩
    have hlt : '9'.val < 'A'.val := by decide
    exact absurd (UInt32.lt_of_le_of_lt h.2 hlt) (UInt32.not_lt.2 hA)
  exact dif_neg hupper

section
variable (h : Text.isNumeral ds = true)
include h

theorem isDigit_of_isNumeral : ∀ c ∈ ds, c.isDigit = true := by
  simp only [Text.isNumeral, Bool.and_eq_true, List.all_eq_true] at h
  exact h.2

/-- All the names of numbers hold an n. -/
theorem named?_of_isNumeral : named? negative ds = none := by
  have hdigits := isDigit_of_isNumeral h
  have hlower : ds.map Char.toLower = ds :=
    (List.map_congr_left fun c hc => toLower_of_isDigit (hdigits c hc)).trans (List.map_id ds)
  have hname : ∀ name : String, 'n' ∈ name.toList → String.ofList ds ≠ name := by
    rintro _ hn rfl
    rw [String.toList_ofList] at hn
    exact absurd (hdigits 'n' hn) (by decide)
  unfold named?
  dsimp only
  rw [hlower, if_neg, if_neg]
  · exact hname _ (by decide)
  · rw [not_or]
    exact ⟨hname _ (by decide), hname _ (by decide)⟩

theorem decimal?_of_isNumeral (hlt : Text.digitsValue ds < 2 ^ 64) :
    decimal? negative ds = some (ofRatio negative (Text.digitsValue ds) 1) := by
  have hdigits := isDigit_of_isNumeral h
  have hne : ds ≠ [] := by
    rintro rfl
    simp [Text.isNumeral] at h
  have htake : ds.takeWhile Char.isDigit = ds := List.takeWhile_eq_self_iff.2 hdigits
  have hdrop : ds.dropWhile Char.isDigit = [] := List.dropWhile_eq_nil_iff.2 hdigits
  unfold decimal?
  simp only [htake, hdrop, List.append_nil, if_neg hne, exponent?, Option.map_some]
  exact congrArg some (ofDecimal_zero hlt)

theorem finite?_unsigned? (hlt : Text.digitsValue ds < 2 ^ 64) :
    (unsigned? negative ds).filter isFinite =
      some (ofRatio negative (Text.digitsValue ds) 1) := by
  rw [unsigned?, named?_of_isNumeral h, Option.none_or, decimal?_of_isNumeral h hlt]
  exact Option.filter_some_pos (isFinite_ofRatio_one negative hlt)

end

/-- A numeral of 64 bits is read as the number nearest what it writes, up to the sign of zero. -/
theorem exists_rounds_of_writes {cs : List Char} {n : Int} (h : Text.Writes true cs n)
    (hn : n.natAbs < 2 ^ 64) : ∃ x, finite? cs = some x ∧ Rounds n x := by
  have hrounds : ∀ (negative : Bool) {d : Nat}, n = (if negative then -(d : Int) else d) →
      Rounds n (ofRatio negative d 1) := by
    intro negative d hd
    have habs : n.natAbs = d := by
      cases negative <;> simp [hd]
    have hlt : d < 2 ^ 64 := habs ▸ hn
    refine ⟨hn, same_eq_true_iff.2
      ⟨isNaN_of_isFinite (isFinite_ofRatio_one _ hlt), isNaN_ofInt hn, ?_⟩⟩
    rw [key_ofRatio_one _ hlt, key_ofInt hn, habs]
    cases negative with
    | false => rw [if_neg (by simp), if_neg (by simp [hd])]
    | true =>
      -- a minus sign may stand in front of zero, but the integer keeps none
      rcases Nat.eq_zero_or_pos d with rfl | hpos
      · simp [hd, roundedMagnitude]
      · rw [if_pos rfl, if_pos (by simp [hd, hpos])]
  cases h with
  | @digits ds hd =>
    refine ⟨_, ?_, hrounds false rfl⟩
    rw [← finite?_unsigned? hd (by omega), finite?]
    unfold ofChars?
    split
    · exact absurd rfl (Text.ne_cons_of_isNumeral hd (by decide) _)
    · exact absurd rfl (Text.ne_cons_of_isNumeral hd (by decide) _)
    · rfl
  | plus hd => exact ⟨_, finite?_unsigned? hd (by omega), hrounds false rfl⟩
  | minus _ hd => exact ⟨_, finite?_unsigned? hd (by omega), hrounds true rfl⟩

end
end FieldRules.Binary64

import FieldRules.Json.Tree

/-! The values of JSON numbers. A plain integer of 64 bits is exact. Every other number is a
significand of 64 bits, rounded, that is multiplied or divided by a rounded power of ten. -/
namespace FieldRules.Json
open Text

/-- Reads digits on to a significand while it fits 64 bits; the digits left come with it. -/
def absorb (significand : Nat) : List Char → Nat × List Char
  | [] => (significand, [])
  | c :: cs =>
    if 10 * significand + digitValue c < 0x10000000000000000 then
      absorb (10 * significand + digitValue c) cs
    else (significand, c :: cs)

def powerOfTen (n : Nat) : Binary64 := Binary64.ofNat (Nat.pow 10 n)

/-- One multiplication or division takes at most 308 places. -/
def shiftPlaces (x : Binary64) (places : Int) : Option Binary64 :=
  if places.natAbs ≤ 308 then
    some (if 0 ≤ places then x.mul (powerOfTen places.natAbs) else x.div (powerOfTen places.natAbs))
  else if x.magnitude = 0 then some x
  else if 0 ≤ places then none
  else shiftPlaces (x.div (powerOfTen 308)) (places + 308)
termination_by places.natAbs
decreasing_by omega

namespace Literal

def signed (l : Literal) (x : Binary64) : Binary64 := if l.negative then x.neg else x

/-- Of the whole digits those left over count as places; of the fraction they are dropped. -/
def float? (l : Literal) : Option Binary64 :=
  let (s, whole) := absorb 0 l.whole
  let (s, fraction) := absorb s l.fraction
  let places : Int := whole.length - (l.fraction.length - fraction.length) + l.exponent.getD 0
  ((shiftPlaces (Binary64.ofNat s) places).map l.signed).filter Binary64.isFinite

/-- The integer that is written without point and exponent and fits 64 bits, signed or not. Minus
zero is none. -/
def integer? (l : Literal) : Option Int :=
  let n := digitsValue l.whole
  if l.fraction = [] ∧ l.exponent = none then
    if l.negative then (if 0 < n ∧ n ≤ 0x8000000000000000 then some (-Int.ofNat n) else none)
    else (if n < 0x10000000000000000 then some (Int.ofNat n) else none)
  else none

theorem integer?_bounds {l : Literal} {i : Int} (h : l.integer? = some i) :
    -0x8000000000000000 ≤ i ∧ i < 0x10000000000000000 := by
  simp only [integer?, Int.ofNat_eq_natCast] at h
  grind

theorem float?_finite {l : Literal} {x : Binary64} (h : l.float? = some x) : x.isFinite = true := by
  simp only [float?, Option.filter_eq_some_iff] at h
  exact h.2

end Literal
end FieldRules.Json

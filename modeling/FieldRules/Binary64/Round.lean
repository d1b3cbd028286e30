import FieldRules.Binary64

/-! Rounding to the nearest number, a tie to the one with an even significand, and the exact
operations that are rounded so. -/
namespace FieldRules.Binary64

/-- The natural number nearest `n / d`, a tie going to the even one. -/
def nearest (n d : Nat) : Nat :=
  let q := n / d
  let r := n % d
  if 2 * r < d then q else if d < 2 * r then q + 1 else q + q % 2

/-- The power of two that is the last place of the number nearest `n / d`. -/
def place (n d : Nat) : Int :=
  if n = 0 then -1074 else
  let e : Int := max (↑n.log2 - ↑d.log2 - 53) (-1074)
  if n <<< (-e).toNat < d <<< (e.toNat + 53) then e else e + 1

/-- The number nearest `n / d`; from halfway beyond the largest one on, infinity. Counted in last
places, a number's magnitude goes on from that of the place before. -/
def ofRatio (negative : Bool) (n d : Nat) : Binary64 :=
  let e := place n d
  let m := nearest (n <<< (-e).toNat) (d <<< e.toNat)
  ofMagnitude negative (min ((e + 1074).toNat <<< 52 + m) infinite)

def ofNat (n : Nat) : Binary64 := ofRatio false n 1
def ofInt (i : Int) : Binary64 := ofRatio (decide (i < 0)) i.natAbs 1

/-- The product of two finite numbers without their signs. -/
def mul (x y : Binary64) : Binary64 :=
  let e := x.exponent + y.exponent
  ofRatio false ((x.significand * y.significand) <<< e.toNat) (1 <<< (-e).toNat)

/-- The quotient of two finite numbers without their signs, the second one not zero. -/
def div (x y : Binary64) : Binary64 :=
  let e := x.exponent - y.exponent
  ofRatio false (x.significand <<< e.toNat) (y.significand <<< (-e).toNat)

def neg (x : Binary64) : Binary64 := ofMagnitude (!x.negative) x.magnitude

/-- The number nearest `digits * 10 ^ exponent`. An exponent out of reach of every number decides
without a large power. -/
def ofDecimal (negative : Bool) (digits : Nat) (exponent : Int) : Binary64 :=
  let places : Int := (Nat.toDigits 10 digits).length
  if digits = 0 ∨ places + exponent < -324 then ofMagnitude negative 0
  else if 310 < places + exponent then infinity negative
  else ofRatio negative (digits * Nat.pow 10 exponent.toNat) (Nat.pow 10 (-exponent).toNat)

example : ofInt 9007199254740993 = ofInt 9007199254740992 := by decide
example : ofNat 1 = ⟨0x3ff0000000000000⟩ ∧ ofInt (-3) = ⟨0xc008000000000000⟩ := by decide

end FieldRules.Binary64

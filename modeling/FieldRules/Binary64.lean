/-! The 64-bit binary floating point numbers of IEEE 754, by their bit patterns. -/
namespace FieldRules

structure Binary64 where
  bits : UInt64
  deriving DecidableEq, Repr

namespace Binary64

/-- A sign and the 63 bits below it; magnitudes that do not fit wrap. -/
def ofMagnitude (negative : Bool) (magnitude : Nat) : Binary64 :=
  ⟨UInt64.ofNat (if negative then 0x8000000000000000 + magnitude else magnitude)⟩

def negative (x : Binary64) : Bool := 0x8000000000000000 ≤ x.bits.toNat
def magnitude (x : Binary64) : Nat := x.bits.toNat % 0x8000000000000000

/-- The magnitude of the infinities; those above it are no numbers. -/
def infinite : Nat := 0x7ff0000000000000

def zero : Binary64 := ofMagnitude false 0
def infinity (negative : Bool) : Binary64 := ofMagnitude negative infinite
def nan : Binary64 := ofMagnitude false (infinite + 0x8000000000000)

def isNaN (x : Binary64) : Bool := infinite < x.magnitude
def isFinite (x : Binary64) : Bool := x.magnitude < infinite

/-- The order of the numbers is that of these keys; both zeros have key 0. -/
def key (x : Binary64) : Int := if x.negative then -x.magnitude else x.magnitude

/-- Equality of numbers: the zeros are equal, and what is no number equals nothing. -/
def same (x y : Binary64) : Bool := !x.isNaN && !y.isNaN && x.key == y.key

instance : LE Binary64 := ⟨fun x y => x.isNaN = false ∧ y.isNaN = false ∧ x.key ≤ y.key⟩
instance : LT Binary64 := ⟨fun x y => x.isNaN = false ∧ y.isNaN = false ∧ x.key < y.key⟩
instance : DecidableLE Binary64 := fun x y =>
  inferInstanceAs (Decidable (x.isNaN = false ∧ y.isNaN = false ∧ x.key ≤ y.key))
instance : DecidableLT Binary64 := fun x y =>
  inferInstanceAs (Decidable (x.isNaN = false ∧ y.isNaN = false ∧ x.key < y.key))

/-- A finite number is `significand * 2 ^ exponent` up to its sign. -/
def significand (x : Binary64) : Nat :=
  if x.magnitude < 0x10000000000000 then x.magnitude else x.magnitude % 0x10000000000000 + 0x10000000000000
def exponent (x : Binary64) : Int := Int.ofNat (max (x.magnitude / 0x10000000000000) 1) - 1075

theorem isNaN_of_isFinite {x : Binary64} (h : x.isFinite = true) : x.isNaN = false :=
  decide_eq_false (Nat.lt_asymm (of_decide_eq_true h))

example : zero.same (ofMagnitude true 0) = true ∧ nan.same nan = false := by decide
example : (ofMagnitude false 0x3ff8000000000000).significand = 0x18000000000000 ∧
    (ofMagnitude false 0x3ff8000000000000).exponent = -52 := by decide

end Binary64
end FieldRules

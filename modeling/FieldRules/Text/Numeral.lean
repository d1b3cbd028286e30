/-! Decimal numerals of 64 bits: ASCII digits after an optional sign, leading zeros allowed. Hexadecimal
numbers for escapes. -/
namespace FieldRules.Text

def digitValue (c : Char) : Nat := c.toNat - '0'.toNat

/-- The number written by the digits, read on from `n`. -/
def digitsValueFrom (n : Nat) (cs : List Char) : Nat := cs.foldl (fun n c => 10 * n + digitValue c) n

def digitsValue (cs : List Char) : Nat := digitsValueFrom 0 cs

def isNumeral (cs : List Char) : Bool := !cs.isEmpty && cs.all Char.isDigit

def digits? (cs : List Char) : Option Nat := if isNumeral cs then some (digitsValue cs) else none

/-- An unsigned numeral, which may carry a plus sign but no minus sign, below `2 ^ 64`. -/
def natural? (cs : List Char) : Option Nat :=
  (match cs with
    | '+' :: cs => digits? cs
    | cs => digits? cs).filter (· < 0x10000000000000000)

theorem digits?_toString (n : Nat) : digits? (toString n).toList = some n := by
  have hall : (Nat.toDigits 10 n).all Char.isDigit = true :=
    List.all_eq_true.2 fun c hc => Nat.isDigit_of_mem_toDigits (by decide) (by decide) hc
  have hn : isNumeral (Nat.toDigits 10 n) = true := by
    simp [isNumeral, hall, Nat.toDigits_ne_nil]
  rw [Nat.toString_eq_repr, Nat.toList_repr, digits?, if_pos hn]
  exact congrArg some Nat.ofDigitChars_ten_toDigits

/-- The numeral of a number that fits 64 bits is read back. -/
theorem natural?_toString (n : Nat) :
    natural? (toString n).toList = if n < 0x10000000000000000 then some n else none := by
  rw [natural?, digits?_toString]
  · simp [Option.filter]
  · intro cs h
    have hplus : '+' ∈ Nat.toDigits 10 n := by
      rw [← Nat.toList_repr, ← Nat.toString_eq_repr, h]
      exact List.mem_cons_self
    exact absurd (Nat.isDigit_of_mem_toDigits (by decide) (by decide) hplus) (by decide)

/-- A signed numeral that fits 64 bits. -/
def integer? (cs : List Char) : Option Int64 :=
  ((match cs with
    | '+' :: cs => (digits? cs).map Int.ofNat
    | '-' :: cs => (digits? cs).map fun n => -Int.ofNat n
    | cs => (digits? cs).map Int.ofNat).filter fun i =>
      -0x8000000000000000 ≤ i ∧ i < 0x8000000000000000).map Int64.ofInt

def hexValue? (c : Char) : Option Nat :=
  if c.isDigit then some (digitValue c)
  else if 'a' ≤ c ∧ c ≤ 'f' then some (c.toNat - 'a'.toNat + 10)
  else if 'A' ≤ c ∧ c ≤ 'F' then some (c.toNat - 'A'.toNat + 10)
  else none

def hexNumber? (cs : List Char) : Option Nat :=
  cs.foldlM (fun n c => (hexValue? c).map (16 * n + ·)) 0

example : natural? "+007".toList = some 7 ∧ natural? "-0".toList = none := by decide
example : integer? "-9223372036854775808".toList = some Int64.minValue := by decide
example : integer? "9223372036854775808".toList = none := by decide
example : integer? "+-1".toList = none ∧ natural? "+".toList = none := by decide

end FieldRules.Text

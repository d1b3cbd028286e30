import FieldRules.Binary64.Round
import FieldRules.Text.Numeral

/-! Floating point numbers as they are written: a sign, then digits with an optional point and
exponent, or one of the names of infinity and of no number in any case. -/
namespace FieldRules.Binary64
open Text

/-- An exponent part, with the zero exponent where there is none. -/
def exponent? : List Char → Option Int
  | [] => some 0
  | e :: cs =>
    if e = 'e' ∨ e = 'E' then
      match cs with
      | '-' :: cs => (digits? cs).map fun n => -Int.ofNat n
      | '+' :: cs => (digits? cs).map Int.ofNat
      | cs => (digits? cs).map Int.ofNat
    else none

/-- A decimal without its sign; one of the two parts around the point may be empty. -/
def decimal? (negative : Bool) (cs : List Char) : Option Binary64 :=
  let whole := cs.takeWhile Char.isDigit
  let (fraction, rest) := match cs.dropWhile Char.isDigit with
    | '.' :: rest => (rest.takeWhile Char.isDigit, rest.dropWhile Char.isDigit)
    | rest => ([], rest)
  if whole ++ fraction = [] then none
  else (exponent? rest).map fun e =>
    ofDecimal negative (digitsValue (whole ++ fraction)) (e - fraction.length)

def named? (negative : Bool) (cs : List Char) : Option Binary64 :=
  let name := String.ofList (cs.map Char.toLower)
  if name = "inf" ∨ name = "infinity" then some (infinity negative)
  else if name = "nan" then some nan
  else none

def unsigned? (negative : Bool) (cs : List Char) : Option Binary64 :=
  (named? negative cs).or (decimal? negative cs)

def ofChars? : List Char → Option Binary64
  | '-' :: cs => unsigned? true cs
  | '+' :: cs => unsigned? false cs
  | cs => unsigned? false cs

def ofText? (s : String) : Option Binary64 := ofChars? s.toList

/-- A literal of a finite number; one that rounds to infinity is none. -/
def finite? (cs : List Char) : Option Binary64 := (ofChars? cs).filter isFinite

example : ofText? ".5" = ofText? "5.e-1" ∧ (ofText? ".5").isSome = true := by decide
example : ofText? "." = none ∧ ofText? "1e" = none ∧ ofText? "1_0" = none := by decide
example : ofText? "-Inf" = some (infinity true) ∧ ofText? "1e999" = some (infinity false) := by decide
example : finite? "1e400".toList = none := by decide

end FieldRules.Binary64

import FieldRules.Json
import FieldRules.Value

/-! Subjects from JSON data and back. -/
namespace FieldRules

namespace Scalar

theorem toInt_fits (i : Int64) : -0x8000000000000000 ≤ i.toInt ∧ i.toInt < 0x10000000000000000 := by
  have hl := i.le_toInt
  have hu := i.toInt_lt
  omega

/-- Floats that are not finite have no JSON form and become null. -/
def toJson : Scalar → Json
  | bool b => .bool b
  | int i => .integer i.toInt (toInt_fits i)
  | float x => if h : x.isFinite = true then .float x h else .null
  | string s => .string s

end Scalar

namespace Value

mutual

/-- Nilables become what they hold, and null when they are unset. -/
def toJson : Value → Json
  | null => .null
  | scalar s => s.toJson
  | nilable s => s.toJson
  | unset _ => .null
  | list items => .array (toJsonList items)
  | object es => .object (toJsonEntries es)

def toJsonList : List Value → List Json
  | [] => []
  | v :: vs => toJson v :: toJsonList vs

def toJsonEntries : List (String × Value) → List (String × Json)
  | [] => []
  | (k, v) :: es => (k, toJson v) :: toJsonEntries es

end

/-- Integers stay integers where a signed integer of 64 bits holds them. -/
def ofInteger (i : Int) : Scalar :=
  if i < 0x8000000000000000 then .int (Int64.ofInt i) else .float (.ofInt i)

mutual

def ofJson : Json → Value
  | .null => null
  | .bool b => scalar (.bool b)
  | .integer i _ => scalar (ofInteger i)
  | .float x _ => scalar (.float x)
  | .string s => scalar (.string s)
  | .array items => list (ofJsonList items)
  | .object es => object (ofJsonEntries es)

def ofJsonList : List Json → List Value
  | [] => []
  | j :: js => ofJson j :: ofJsonList js

def ofJsonEntries : List (String × Json) → List (String × Value)
  | [] => []
  | (k, j) :: es => (k, ofJson j) :: ofJsonEntries es

end

def ofText? (s : String) : Option Value := (Json.ofText? s).map ofJson

end Value
end FieldRules

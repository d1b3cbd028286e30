import FieldRules.Json.Number
import FieldRules.Json.Writer
import FieldRules.Value

/-! Nilables on their own: a scalar, or none while the nilable is unset. In JSON an unset one is
null. -/
namespace FieldRules

/-- The scalar of this type in a JSON text. Integers must be written as such; any number is a
float. -/
def ScalarType.ofTree? : ScalarType → Json.Tree → Option Scalar
  | bool, .bool b => some (.bool b)
  | int, .number l => (l.integer?.filter (· < 0x8000000000000000)).map fun i => .int (Int64.ofInt i)
  | float, .number l => ((l.integer?.map Binary64.ofInt).or l.float?).map .float
  | string, .string s => s.map .string
  | _, _ => none

/-- The JSON text of a scalar that is not a float. -/
def Scalar.text? : Scalar → Option String
  | bool b => some (Json.writeBool b)
  | int i => some (toString i.toInt)
  | float _ => none
  | string s => some (Json.writeString s)

abbrev Nilable := Option Scalar

namespace Nilable

def ofText? (t : ScalarType) (s : String) : Option Nilable :=
  match Json.Tree.ofText? s with
  | some .null => some none
  | some tree => (t.ofTree? tree).map some
  | none => none

def text? : Nilable → Option String
  | some s => s.text?
  | none => some "null"

def same : Nilable → Nilable → Bool
  | some a, some b => a.same b
  | none, none => true
  | _, _ => false

end Nilable
end FieldRules

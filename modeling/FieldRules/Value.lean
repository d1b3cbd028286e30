import FieldRules.Binary64
import FieldRules.Entries
import FieldRules.Text.Blank

/-! The subject of a check: nested objects and lists with scalars at the leaves. A scalar may stand
bare or in a nilable, which may also be unset. -/
namespace FieldRules

inductive Scalar
  | bool (b : Bool)
  | int (i : Int64)
  | float (x : Binary64)
  | string (s : String)
  deriving DecidableEq, Repr

inductive ScalarType
  | bool
  | int
  | float
  | string
  deriving DecidableEq, Repr

/-- What a value looks like from outside. -/
inductive Shape
  | null
  | scalar (t : ScalarType)
  | list
  | object
  deriving DecidableEq, Repr

inductive Value
  | null
  | scalar (s : Scalar)
  | nilable (s : Scalar)
  | unset (t : ScalarType)
  | list (items : List Value)
  | object (entries : List (String × Value))
  deriving Inhabited

namespace ScalarType

def name : ScalarType → String
  | bool => "bool"
  | int => "int"
  | float => "float"
  | string => "string"

def zero : ScalarType → Scalar
  | bool => .bool false
  | int => .int 0
  | float => .float Binary64.zero
  | string => .string ""

end ScalarType

def Shape.name : Shape → String
  | null => "null"
  | scalar t => t.name
  | list => "list"
  | object => "object"

namespace Scalar

def type : Scalar → ScalarType
  | bool _ => .bool
  | int _ => .int
  | float _ => .float
  | string _ => .string

/-- Equality within a type; floats compare as numbers. -/
def same : Scalar → Scalar → Bool
  | bool a, bool b => a == b
  | int a, int b => a == b
  | float a, float b => a.same b
  | string a, string b => a == b
  | _, _ => false

def trimmed : Scalar → Scalar
  | string s => string (Text.trim s)
  | s => s

end Scalar

namespace Value

def shape : Value → Shape
  | null => .null
  | scalar s => .scalar s.type
  | nilable s => .scalar s.type
  | unset t => .scalar t
  | list _ => .list
  | object _ => .object

def isNull : Value → Bool
  | null => true
  | _ => false

def isUnset : Value → Bool
  | null => true
  | unset _ => true
  | _ => false

/-- The scalar of a bare value or a set nilable. -/
def scalar? : Value → Option Scalar
  | scalar s => some s
  | nilable s => some s
  | _ => none

def string? (v : Value) : Option String :=
  match v.scalar? with
  | some (.string s) => some s
  | _ => none

def key? (key : String) : Value → Option Value
  | object es => Entries.get? key es
  | _ => none

/-- Blanks removed from both ends of a string; every other value as it is. -/
def trimmed : Value → Value
  | scalar s => scalar s.trimmed
  | nilable s => nilable s.trimmed
  | v => v

mutual

/-- Equality of values. The entries of objects are compared by name, in any order. -/
def same : Value → Value → Bool
  | null, null => true
  | scalar a, scalar b => a.same b
  | nilable a, nilable b => a.same b
  | unset t, unset u => t == u
  | list xs, list ys => sameList xs ys
  | object es, object fs => es.length == fs.length && sameEntries es fs
  | _, _ => false

def sameList : List Value → List Value → Bool
  | [], [] => true
  | x :: xs, y :: ys => same x y && sameList xs ys
  | _, _ => false

def sameEntries : List (String × Value) → List (String × Value) → Bool
  | [], _ => true
  | (k, v) :: es, fs =>
    (match Entries.get? k fs with
      | some w => same v w
      | none => false) && sameEntries es fs

end

@[simp] theorem shape_trimmed (v : Value) : v.trimmed.shape = v.shape := by
  cases v with
  | scalar s => cases s <;> rfl
  | nilable s => cases s <;> rfl
  | _ => rfl

@[simp] theorem isUnset_trimmed (v : Value) : v.trimmed.isUnset = v.isUnset := by cases v <;> rfl

example : (nilable (.int 1)).same (scalar (.int 1)) = false := by decide +kernel

end Value
end FieldRules

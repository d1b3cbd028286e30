import FieldRules.Value

/-! The kinds of fields that a rule can be written for. -/
namespace FieldRules

inductive Kind
  | bool
  | int
  | float
  | string
  | list
  | object
  deriving DecidableEq, Repr

namespace Kind

def all : List Kind := [bool, int, float, string, list, object]

/-- The clause code that declares the kind. -/
def code : Kind → String
  | bool => "BOOL"
  | int => "INT"
  | float => "FLOAT"
  | string => "STR"
  | list => "SLICE"
  | object => "OBJ"

def ofCode? (code : String) : Option Kind := all.find? (·.code = code)

/-- The name of the kind in configuration files. -/
def configName : Kind → String
  | bool => "bool"
  | int => "int"
  | float => "float"
  | string => "string"
  | list => "slice"
  | object => "object"

/-- The shape of the values of the kind. -/
def shape : Kind → Shape
  | bool => .scalar .bool
  | int => .scalar .int
  | float => .scalar .float
  | string => .scalar .string
  | list => .list
  | object => .object

/-- Values of the kind's own shape, and bare integers where floats are asked for. -/
def accepts (k : Kind) : Value → Bool
  | .scalar (.int _) => k = int ∨ k = float
  | v => v.shape = k.shape

@[simp] theorem mem_all (k : Kind) : k ∈ all := by cases k <;> decide

theorem code_injective {j k : Kind} (h : j.code = k.code) : j = k := by
  cases j <;> cases k <;> simp_all [code]

@[simp] theorem ofCode?_code (k : Kind) : ofCode? k.code = some k := by cases k <;> decide

theorem ofCode?_eq_some {c : String} {k : Kind} : ofCode? c = some k ↔ k.code = c := by
  refine ⟨fun h => by simpa using List.find?_some h, ?_⟩
  rintro rfl
  exact ofCode?_code k

@[simp] theorem accepts_trimmed (k : Kind) (v : Value) : k.accepts v.trimmed = k.accepts v := by
  cases v with
  | scalar s => cases s <;> rfl
  | nilable s => cases s <;> rfl
  | _ => rfl

end Kind
end FieldRules

import FieldRules.Entries
import FieldRules.Json.Number

/-! JSON data: integers of 64 bits, finite floats, and objects whose names are put once. -/
namespace FieldRules

inductive Json
  | null
  | bool (b : Bool)
  | integer (i : Int) (fits : -0x8000000000000000 ≤ i ∧ i < 0x10000000000000000)
  | float (x : Binary64) (finite : x.isFinite = true)
  | string (s : String)
  | array (items : List Json)
  | object (entries : List (String × Json))
  deriving Inhabited

namespace Json

def ofLiteral? (l : Literal) : Option Json :=
  match h : l.integer? with
  | some i => some (integer i (Literal.integer?_bounds h))
  | none =>
    match h : l.float? with
    | some x => some (float x (Literal.float?_finite h))
    | none => none

/-- Of a repeated name the last member counts; the names are sorted by their code points. -/
def sortedEntries (es : Entries Json) : Entries Json :=
  (Entries.ofList es).mergeSort fun a b => a.1 ≤ b.1

mutual

def ofNode? : Tree → Option Json
  | .null => some null
  | .bool b => some (bool b)
  | .number l => ofLiteral? l
  | .string s => s.map string
  | .array items => (ofNodes? items).map array
  | .object members => (ofMembers? members).map fun es => object (sortedEntries es)

def ofNodes? : List Tree → Option (List Json)
  | [] => some []
  | t :: ts =>
    match ofNode? t, ofNodes? ts with
    | some j, some js => some (j :: js)
    | _, _ => none

def ofMembers? : List (Content × Tree) → Option (Entries Json)
  | [] => some []
  | (s, t) :: ms =>
    match s, ofNode? t, ofMembers? ms with
    | some s, some j, some es => some ((s, j) :: es)
    | _, _, _ => none

end

/-- Arrays and objects may be nested up to this depth. -/
def maxDepth : Nat := 127

def ofTree? (t : Tree) : Option Json := if t.depth ≤ maxDepth then ofNode? t else none

def ofText? (s : String) : Option Json := (Tree.ofText? s).bind ofTree?

end Json
end FieldRules

import FieldRules.Json.Tree

/-! Records and choices written in JSON. A record is an object whose unknown members do not matter
and whose known ones stand at most once, or an array of the fields in their order, cut off at any
point. A choice is its name, or an object with the name for its one member and null for value. -/
namespace FieldRules.Json.Tree
variable {α : Type}

/-- What stands in the fields of these names. -/
def fields? (names : List String) : Tree → Option (List (Option Tree))
  | .array items =>
    if items.length ≤ names.length then
      some ((List.range names.length).map fun i => items[i]?)
    else none
  | .object members =>
    if members.any (·.1.isNone) then none
    else names.mapM fun name =>
      match members.filter (·.1 = some name) with
      | [] => some none
      | [m] => some (some m.2)
      | _ => none
  | _ => none

/-- A field of a record, or the default where it is missing. -/
def field? (read : Tree → Option α) (default : α) : Option Tree → Option α
  | some t => read t
  | none => some default

def string? : Tree → Option String
  | .string s => s
  | _ => none

def list? (read : Tree → Option α) : Tree → Option (List α)
  | .array items => items.mapM read
  | _ => none

/-- The members of an object in their order. -/
def members? (read : Tree → Option α) : Tree → Option (List (String × α))
  | .object members => members.mapM fun m => m.1.bind fun name => (read m.2).map (name, ·)
  | _ => none

def choice? (find : String → Option α) : Tree → Option α
  | .string (some name) => find name
  | .object [(some name, .null)] => find name
  | _ => none

end FieldRules.Json.Tree

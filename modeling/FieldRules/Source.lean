import FieldRules.BuildError
import FieldRules.Json.Record
import FieldRules.Json.Writer

/-! Rules as they are delivered: lines of a field and its clauses, and shared rules by name. -/
namespace FieldRules

structure Source where
  rules : List (List String) := []
  shared : Entries (List String) := []
  deriving DecidableEq, Repr

namespace Source

def withRule (s : Source) (field : String) (clauses : List String) : Source :=
  { s with rules := s.rules ++ [field :: clauses] }

def withShared (s : Source) (name : String) (clauses : List String) : Source :=
  { s with shared := s.shared.put name clauses }

def sharedRule? (s : Source) (name : String) : Option (List String) := s.shared.get? name

/-- The lines from the given number on, each with its field name split off. -/
def linesFrom (line : Nat) :
    List (List String) → Except BuildError (List (String × List String))
  | [] => .ok []
  | [] :: _ => .error (.missingField line)
  | (field :: clauses) :: rules =>
    if field = "" then .error (.missingField line)
    else (linesFrom (line + 1) rules).map ((field, clauses) :: ·)

def lines (s : Source) : Except BuildError (List (String × List String)) := linesFrom 0 s.rules

def ofTree? (t : Json.Tree) : Option Source :=
  match t.fields? ["rules", "shared"] with
  | some [rules, shared] =>
    match Json.Tree.field? (Json.Tree.list? (Json.Tree.list? Json.Tree.string?)) [] rules,
        Json.Tree.field? (Json.Tree.members? (Json.Tree.list? Json.Tree.string?)) [] shared with
    | some rules, some shared => some ⟨rules, Entries.ofList shared⟩
    | _, _ => none
  | _ => none

def ofText (s : String) : Except BuildError Source :=
  match (Json.Tree.ofText? s).bind ofTree? with
  | some source => .ok source
  | none => .error .malformedSource

def text (s : Source) : String :=
  Json.writeObject [("rules", Json.writeArray (s.rules.map Json.writeStrings)),
    ("shared", Json.writeObject (s.shared.map fun e => (e.1, Json.writeStrings e.2)))]

end Source
end FieldRules

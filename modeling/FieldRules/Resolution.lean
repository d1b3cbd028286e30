import FieldRules.FieldPath
import FieldRules.Text.Numeral

/-! Walking a field path through a subject. A missing key, an index out of range and null mean that
the field is unset; a scalar on the way, or a segment that is no index of a list, is an obstacle. -/
namespace FieldRules

inductive Obstacle
  | notAContainer (segment : String) (found : Shape)
  | badIndex (segment : String)
  deriving DecidableEq, Repr

/-- An obstacle on the way along a path. -/
structure PathError where
  path : String
  obstacle : Obstacle
  deriving DecidableEq, Repr

/-- Why a field cannot be checked: its rules do not describe this subject. -/
inductive Failure
  | wrongKind (field : String) (expected : Kind) (found : Shape)
  | path (error : PathError)
  deriving DecidableEq, Repr

def PathError.message (e : PathError) : String :=
  "path '" ++ e.path ++ "': segment '" ++
    match e.obstacle with
    | .notAContainer segment found => segment ++ "' descends into a " ++ found.name ++ " value"
    | .badIndex segment => segment ++ "' is not a list index"

def Failure.message : Failure → String
  | wrongKind field expected found =>
    "field '" ++ field ++ "' holds a " ++ found.name ++ " value, expected " ++ expected.shape.name
  | path e => e.message

namespace Value

/-- The child that a segment names, if it is there. -/
def child? (v : Value) (segment : String) : Except Obstacle (Option Value) :=
  match v with
  | null => .ok none
  | object es => .ok (Entries.get? segment es)
  | list items =>
    match Text.natural? segment.toList with
    | some i => .ok items[i]?
    | none => .error (.badIndex segment)
  | _ => .error (.notAContainer segment v.shape)

/-- Puts a value in the place of the child that a segment names. -/
def setChild (v : Value) (segment : String) (new : Value) : Value :=
  match v with
  | object es => object (Entries.put segment new es)
  | list items =>
    match Text.natural? segment.toList with
    | some i => list (items.set i new)
    | none => v
  | _ => v

/-- The value at the end of the way; null is none. -/
def walk (v : Value) : List String → Except Obstacle (Option Value)
  | [] => .ok (if v.isNull then none else some v)
  | segment :: rest =>
    match v.child? segment with
    | .error e => .error e
    | .ok none => .ok none
    | .ok (some w) => w.walk rest

/-- The subject with another value at the end of the way, where `walk` finds one. -/
def overwrite (v : Value) : List String → Value → Except Obstacle (Option Value)
  | [], new => .ok (if v.isNull then none else some new)
  | segment :: rest, new =>
    match v.child? segment with
    | .error e => .error e
    | .ok none => .ok none
    | .ok (some w) =>
      match w.overwrite rest new with
      | .error e => .error e
      | .ok none => .ok none
      | .ok (some w') => .ok (some (v.setChild segment w'))

/-- What is at the path; none if it is unset. -/
def resolve (v : Value) (p : FieldPath) : Except PathError (Option Value) :=
  (v.walk p.segments).mapError (PathError.mk p.text)

/-- The subject with another value at the path; none if there is no value to replace. -/
def replace (v : Value) (p : FieldPath) (new : Value) : Except PathError (Option Value) :=
  (v.overwrite p.segments new).mapError (PathError.mk p.text)

@[simp] theorem walk_nil (v : Value) : v.walk [] = .ok (if v.isNull then none else some v) := rfl

theorem walk_cons (segment : String) (rest : List String) (v : Value) :
    v.walk (segment :: rest) =
      match v.child? segment with
      | .error e => .error e
      | .ok none => .ok none
      | .ok (some w) => w.walk rest := rfl

end Value
end FieldRules

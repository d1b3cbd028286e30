import FieldRules.Bounds
import FieldRules.Codes
import FieldRules.Resolution

/-! Rules as they are built: a chain of steps for the values of one kind. -/
namespace FieldRules

namespace Value

def bool? (v : Value) : Option Bool :=
  match v.scalar? with
  | some (.bool b) => some b
  | _ => none

def int? (v : Value) : Option Int64 :=
  match v.scalar? with
  | some (.int i) => some i
  | _ => none

/-- Integers are read as the floats nearest to them. -/
def float? (v : Value) : Option Binary64 :=
  match v.scalar? with
  | some (.float x) => some x
  | some (.int i) => some (.ofInt i.toInt)
  | _ => none

/-- The characters of a string, or the elements of a list. -/
def length? : Value → Option Nat
  | list items => some items.length
  | v => v.string?.map String.length

/-- The number of elements of a list; every other value has none. -/
def elementCount : Value → Nat
  | list items => items.length
  | _ => 0

end Value

/-- A test of one value. It holds of values that have nothing of what it looks at. -/
inductive Test
  | is (expected : Bool)
  | length (bounds : Bounds Nat)
  | intRange (bounds : Bounds Int64)
  | floatRange (bounds : Bounds Binary64)
  | intIn (members : List Int64)
  | floatIn (members : List Binary64)
  | stringIn (members : List String)
  | pattern (occursIn : String → Bool)
  | boolBy (accepts : Bool → Bool)
  | intBy (accepts : Int64 → Bool)
  | floatBy (accepts : Binary64 → Bool)
  | stringBy (accepts : String → Bool)

namespace Test

def holds : Test → Value → Bool
  | is expected, v => v.bool?.all (· == expected)
  | length bounds, v => v.length?.all bounds.contains
  | intRange bounds, v => v.int?.all bounds.contains
  | floatRange bounds, v => v.float?.all bounds.contains
  | intIn members, v => v.int?.all members.contains
  | floatIn members, v => v.float?.all fun x => members.any x.same
  | stringIn members, v => v.string?.all members.contains
  | pattern occursIn, v => v.string?.all occursIn
  | boolBy accepts, v => v.bool?.all accepts
  | intBy accepts, v => v.int?.all accepts
  | floatBy accepts, v => v.float?.all accepts
  | stringBy accepts, v => v.string?.all accepts

end Test

mutual

/-- A step of a chain. Steps raise codes, change the value that later steps see, or end the
chain. -/
inductive Step
  /-- The chain ends if a code has been raised. -/
  | stop
  /-- None of the other fields may be set. -/
  | exclusive (others : List FieldPath) (code : String)
  | test (t : Test) (code : String)
  /-- Later steps see the value trimmed, and so does the subject if it is stored. -/
  | trim (store : Bool)
  /-- Every element of the list is checked by a rule of its own. -/
  | elements (rule : Rule)

structure Rule where
  kind : Kind
  defaultCode : String
  /-- The code for a missing field, if the field is required. -/
  missing : Option String
  stopAll : Bool
  /-- Every code that a check by this rule can raise. -/
  codes : Codes
  chain : List Step

end

/-- A rule for a field. -/
structure Validator where
  path : FieldPath
  rule : Rule

namespace Validator

def field (v : Validator) : String := v.path.text

/-- The fields that are checked before this one: those on the way to it. -/
def dependsOn (v : Validator) : List String := v.path.parents

def required (v : Validator) : Bool := v.rule.missing.isSome

end Validator
end FieldRules

import FieldRules.Kind

/-! Why a rule cannot be built, and how that is told. -/
namespace FieldRules

/-- What a literal should have been. -/
inductive LiteralType
  | boolean
  | integer
  | finiteFloat
  deriving DecidableEq, Repr

def LiteralType.name : LiteralType → String
  | boolean => "boolean"
  | integer => "integer"
  | finiteFloat => "finite float"

/-- The name of the capability to check scalars of a type. -/
def ScalarType.capability : ScalarType → String
  | bool => "bool"
  | int => "int64"
  | float => "float64"
  | string => "string"

/-- Fields and clauses are given as they were written. -/
inductive BuildError
  | emptyClause (field : String)
  | unknownOperation (field : String) (kind : Kind) (code clause : String)
  | paramCount (field operation : String) (min max actual : Nat) (clause : String)
  | invalidLiteral (field value : String) (expected : LiteralType) (clause : String)
  | invalidRange (field range clause : String)
  | invalidPattern (field pattern clause : String)
  | noRegistry (field clause : String)
  | componentNotFound (field component clause : String)
  | missingCapability (field component : String) (capability : ScalarType) (clause : String)
  | missingKind (field : String)
  | conflictingKinds (field : String) (first second : Kind)
  | unknownSharedRule (field rule : String)
  | recursiveSharedRule (field rule : String)
  | invalidPath (path : String)
  | missingField (line : Nat)
  | duplicateField (field : String) (line : Nat)
  | dependencyCycle (field : String) (line : Nat)
  | malformedSource
  deriving DecidableEq, Repr

namespace BuildError

def inField (field text : String) : String := "field '" ++ field ++ "': " ++ text
def inClause (text clause : String) : String := text ++ " in clause '" ++ clause ++ "'"
def quoted (s : String) : String := "'" ++ s ++ "'"

def message : BuildError → String
  | emptyClause field => inField field "empty rule clause"
  | unknownOperation field kind code clause =>
    inField field (inClause
      ("unsupported " ++ kind.shape.name ++ " operation " ++ quoted code) clause)
  | paramCount field operation min max actual clause =>
    inField field (inClause ("operation " ++ operation ++ " expects " ++ toString min ++ "..=" ++
      toString max ++ " parameters, got " ++ toString actual) clause)
  | invalidLiteral field value expected clause =>
    inField field (inClause (quoted value ++ " is not a valid " ++ expected.name) clause)
  | invalidRange field range clause =>
    inField field (inClause ("invalid range " ++ quoted range) clause)
  | invalidPattern field pattern clause =>
    inField field (inClause ("invalid pattern " ++ quoted pattern) clause)
  | noRegistry field clause =>
    inField field ("no component lookup configured to resolve clause " ++ quoted clause)
  | componentNotFound field component clause =>
    inField field (inClause ("no component named " ++ quoted component) clause)
  | missingCapability field component capability clause =>
    inField field (inClause ("component " ++ quoted component ++ " cannot validate " ++
      capability.capability ++ " values") clause)
  | missingKind field =>
    inField field "rule has no type indicator (BOOL, INT, FLOAT, STR, SLICE, OBJ)"
  | conflictingKinds field first second =>
    inField field ("rule declares both " ++ first.code ++ " and " ++ second.code)
  | unknownSharedRule field rule => inField field ("unknown shared rule " ++ quoted rule)
  | recursiveSharedRule field rule =>
    inField field ("shared rule " ++ quoted rule ++ " refers back to itself")
  | invalidPath path => "invalid field path " ++ quoted path
  | missingField line => "rule line " ++ toString line ++ " has no field name"
  | duplicateField field line =>
    "field " ++ quoted field ++ " is configured more than once (rule line " ++ toString line ++ ")"
  | dependencyCycle field line =>
    "field " ++ quoted field ++ " (rule line " ++ toString line ++
      ") is part of a dependency cycle"
  | malformedSource => "malformed rule source"

end BuildError
end FieldRules

import FieldRules.BuildError
import FieldRules.Text.Separated

/-! Clauses: an operation code and its parameters, written with colons between them. A doubled
colon is a colon of its part. -/
namespace FieldRules

structure Clause where
  code : String
  params : List String
  text : String
  deriving DecidableEq, Repr

namespace Clause

/-- Blanks around the code do not count, and it must not be empty. -/
def parse (field text : String) : Except BuildError Clause :=
  match Text.splitEscaped ':' text with
  | [] => .error (.emptyClause field)
  | code :: params =>
    if Text.trim code = "" then .error (.emptyClause field)
    else .ok ⟨Text.trim code, params, text⟩

def parseAll (field : String) (texts : List String) : Except BuildError (List Clause) :=
  texts.mapM (parse field)

def param? (c : Clause) (index : Nat) : Option String := c.params[index]?

/-- The parameter, or the empty text where there is none. -/
def param (c : Clause) (index : Nat) : String := (c.param? index).getD ""

/-- The code in a parameter; an empty one stands for the default. -/
def codeAt (c : Clause) (index : Nat) (default : String) : String :=
  if c.param index = "" then default else c.param index

/-- The number of parameters, if it is allowed. -/
def countParams (c : Clause) (field : String) (min max : Nat) : Except BuildError Nat :=
  if min ≤ c.params.length ∧ c.params.length ≤ max then .ok c.params.length
  else .error (.paramCount field c.code min max c.params.length c.text)

/-- The clause declares the kind. -/
def declares (c : Clause) (k : Kind) : Bool := c.code = k.code

end Clause

namespace Kind

/-- The kinds declared by clauses, in their order. -/
def declared (clauses : List Clause) : List Kind := clauses.filterMap fun c => ofCode? c.code

/-- The one kind that the clauses declare, however often. -/
def detect (field : String) (clauses : List Clause) : Except BuildError Kind :=
  match declared clauses with
  | [] => .error (.missingKind field)
  | first :: rest =>
    match rest.find? (· ≠ first) with
    | none => .ok first
    | some second => .error (.conflictingKinds field first second)

/-- The default error code: the first one given with a declaration of the kind wins over the
configured one. -/
def defaultCode (k : Kind) (clauses : List Clause) (configured : String) : String :=
  ((clauses.filter (·.declares k)).findSome? fun c =>
    if c.param 0 = "" then none else some (c.param 0)).getD configured

end Kind

example : (Clause.parse "f" " LEN :2-3::").toOption = some ⟨"LEN", ["2-3:"], " LEN :2-3::"⟩ := by
  decide
example : Clause.parse "f" " \t:X" = .error (.emptyClause "f") := by rfl

end FieldRules

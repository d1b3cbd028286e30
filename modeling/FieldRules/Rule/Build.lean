import FieldRules.Clause
import FieldRules.Component
import FieldRules.Config
import FieldRules.Operation
import FieldRules.Pattern.Reader
import FieldRules.Rule

/-! Building rules from clauses. Each clause is read on its own and adds one part; lists may refer
to shared rules for their elements, which are built along. -/
namespace FieldRules

/-- What a clause adds to the rule it stands in. -/
inductive Part
  | declaration
  | required (code : String)
  | stopAll
  | step (s : Step)

/-- The codes that a step can raise. -/
def Step.codes : Step → List String
  | stop => []
  | exclusive _ code => [code]
  | test _ code => [code]
  | trim _ => []
  | elements rule => rule.codes.toList

namespace Part

def codes : Part → List String
  | required code => [code]
  | step s => s.codes
  | _ => []

def missing? : Part → Option String
  | required code => some code
  | _ => none

def isStopAll : Part → Bool
  | stopAll => true
  | _ => false

def step? : Part → Option Step
  | step s => some s
  | _ => none

end Part

/-- Of several codes for a missing field the last one counts. -/
def Rule.ofParts (kind : Kind) (defaultCode : String) (parts : List Part) : Rule where
  kind := kind
  defaultCode := defaultCode
  missing := (parts.filterMap Part.missing?).getLast?
  stopAll := parts.any Part.isStopAll
  codes := Codes.ofList (defaultCode :: parts.flatMap Part.codes)
  chain := parts.filterMap Part.step?

/-- What a clause is read against: the field as it was written, what reads patterns, and how to build
the rule for the elements of a list from its name. -/
structure Scope where
  field : String
  kind : Kind
  defaultCode : String
  registry : Option Registry
  engine : PatternEngine
  element : String → Except BuildError Rule

namespace Scope

def codeAt (sc : Scope) (c : Clause) (index : Nat) : String := c.codeAt index sc.defaultCode

def others (c : Clause) : Except BuildError (List FieldPath) :=
  (Text.splitEscaped ',' (c.param 0)).mapM fun s => FieldPath.parse (Text.trim s)

def isLiteral (sc : Scope) (c : Clause) : Except BuildError Test :=
  if c.param 0 = "true" then .ok (.is true)
  else if c.param 0 = "false" then .ok (.is false)
  else .error (.invalidLiteral sc.field (c.param 0) .boolean c.text)

/-- The members of a set; blanks around them do not count. -/
def members {α : Type} (sc : Scope) (c : Clause) (expected : LiteralType)
    (read : List Char → Option α) : Except BuildError (List α) :=
  (Text.splitEscaped ',' (c.param 0)).mapM fun s =>
    match read (Text.trimChars s.toList) with
    | some a => .ok a
    | none => .error (.invalidLiteral sc.field s expected c.text)

def bounds {α : Type} (sc : Scope) (c : Clause) (read : String → Option (Bounds α)) :
    Except BuildError (Bounds α) :=
  match read (c.param 0) with
  | some b => .ok b
  | none => .error (.invalidRange sc.field (c.param 0) c.text)

def pattern (sc : Scope) (c : Clause) : Except BuildError Test :=
  match sc.engine (c.param 0) with
  | some occursIn => .ok (.pattern occursIn)
  | none => .error (.invalidPattern sc.field (c.param 0) c.text)

/-- The test that a registered component offers for scalars of a type. -/
def external (sc : Scope) (c : Clause) (capability : ScalarType)
    (offer : Component → Option Test) : Except BuildError Test :=
  match sc.registry with
  | none => .error (.noRegistry sc.field c.text)
  | some registry =>
    match registry.find? (c.param 0) with
    | none => .error (.componentNotFound sc.field (c.param 0) c.text)
    | some component =>
      match offer component with
      | none => .error (.missingCapability sc.field (c.param 0) capability c.text)
      | some t => .ok t

/-- The test that an operation asks for, if the kind has it. -/
def test? (sc : Scope) (c : Clause) : Kind → Operation → Option (Except BuildError Test)
  | .bool, .is => some (sc.isLiteral c)
  | .bool, .external => some (sc.external c .bool fun x => x.bool?.map .boolBy)
  | .int, .oneOf => some ((sc.members c .integer Text.integer?).map .intIn)
  | .int, .range => some ((sc.bounds c Bounds.integers?).map .intRange)
  | .int, .external => some (sc.external c .int fun x => x.int?.map .intBy)
  | .float, .oneOf => some ((sc.members c .finiteFloat Binary64.finite?).map .floatIn)
  | .float, .range => some ((sc.bounds c Bounds.floats?).map .floatRange)
  | .float, .external => some (sc.external c .float fun x => x.float?.map .floatBy)
  | .string, .length => some ((sc.bounds c Bounds.length?).map .length)
  | .string, .pattern => some (sc.pattern c)
  | .string, .oneOf => some (.ok (.stringIn (Text.splitEscaped ',' (c.param 0))))
  | .string, .external => some (sc.external c .string fun x => x.string?.map .stringBy)
  | .list, .length => some ((sc.bounds c Bounds.length?).map .length)
  | _, _ => none

def testPart (sc : Scope) (c : Clause) (o : Operation) : Except BuildError Part :=
  match sc.test? c sc.kind o with
  | none => .error (.unknownOperation sc.field sc.kind c.code c.text)
  | some test => do
    _ ← c.countParams sc.field 1 2
    return .step (.test (← test) (sc.codeAt c 1))

def operation (sc : Scope) (c : Clause) : Operation → Except BuildError Part
  | .required => do
    _ ← c.countParams sc.field 0 1
    return .required (sc.codeAt c 0)
  | .stopAll => do
    _ ← c.countParams sc.field 0 0
    return .stopAll
  | .stop => do
    _ ← c.countParams sc.field 0 0
    return .step .stop
  | .exclusive => do
    _ ← c.countParams sc.field 1 2
    return .step (.exclusive (← others c) (sc.codeAt c 1))
  | o =>
    match sc.kind, o with
    | .string, .trim => do
      _ ← c.countParams sc.field 0 0
      return .step (.trim false)
    | .string, .storeTrimmed => do
      _ ← c.countParams sc.field 0 0
      return .step (.trim true)
    | .list, .elements => do
      _ ← c.countParams sc.field 1 1
      return .step (.elements (← sc.element (c.param 0)))
    | _, o => sc.testPart c o

def part (sc : Scope) (c : Clause) : Except BuildError Part :=
  if c.declares sc.kind then do
    _ ← c.countParams sc.field 0 1
    return .declaration
  else
    match Operation.ofCode? c.code with
    | some o => sc.operation c o
    | none => .error (.unknownOperation sc.field sc.kind c.code c.text)

end Scope

/-- Patterns may be read by any engine. -/
structure Builder where
  config : BuilderConfig := {}
  registry : Option Registry := none
  shared : Entries (List String) := []
  engine : PatternEngine := Pattern.engine

namespace Builder

def withShared (b : Builder) (name : String) (clauses : List String) : Builder :=
  { b with shared := b.shared.put name clauses }

def withSharedAll (b : Builder) (shared : Entries (List String)) : Builder :=
  { b with shared := b.shared.putAll shared }

def scope (b : Builder) (element : String → Except BuildError Rule) (field : String) (kind : Kind)
    (clauses : List Clause) : Scope :=
  ⟨field, kind, kind.defaultCode clauses (b.config.defaultCodes.ofKind kind), b.registry,
    b.engine, element⟩

/-- A rule of the given kind, or else of the one that the clauses declare. -/
def compile (b : Builder) (element : String → Except BuildError Rule) (field : String)
    (kind? : Option Kind) (texts : List String) : Except BuildError Rule := do
  let clauses ← Clause.parseAll field texts
  let kind ← match kind? with
    | some kind => pure kind
    | none => Kind.detect field clauses
  let sc := b.scope element field kind clauses
  let parts ← clauses.mapM sc.part
  return Rule.ofParts kind sc.defaultCode parts

/-- The shared rule of a name. Each rule is taken out of those left while its own clauses are read,
so a rule that refers back to itself is found missing there. -/
def sharedRule (b : Builder) (field : String) (left : Entries (List String)) (name : String) :
    Except BuildError Rule :=
  match h : left.get? name with
  | some texts =>
    have := Entries.length_without_lt (Option.isSome_of_mem h)
    b.compile (fun name' => b.sharedRule field (left.without name) name') field none texts
  | none =>
    if (b.shared.get? name).isSome then .error (.recursiveSharedRule field name)
    else .error (.unknownSharedRule field name)
termination_by left.length

def build (b : Builder) (kind? : Option Kind) (field : String) (texts : List String) :
    Except BuildError Validator := do
  let path ← FieldPath.parse field
  let rule ← b.compile (b.sharedRule field b.shared) field kind? texts
  return ⟨path, rule⟩

/-- A validator of the kind that the clauses declare. -/
def rule (b : Builder) (field : String) (texts : List String) : Except BuildError Validator :=
  b.build none field texts

/-- A validator of a given kind; its clauses need not declare it. -/
def ruleOfKind (b : Builder) (kind : Kind) (field : String) (texts : List String) :
    Except BuildError Validator :=
  b.build (some kind) field texts

end Builder
end FieldRules

import FieldRules.Json.Record
import FieldRules.Json.Writer
import FieldRules.Kind

/-! Configuration: the default error code of each kind, and the policies of a rule set. -/
namespace FieldRules

def Kind.ofConfigName? (name : String) : Option Kind := Kind.all.find? (·.configName = name)

/-- The kind named by a JSON text. -/
def Kind.ofText? (s : String) : Option Kind :=
  (Json.Tree.ofText? s).bind (Json.Tree.choice? Kind.ofConfigName?)

def Kind.text (k : Kind) : String := Json.writeString k.configName

/-- The error code where neither the clause nor the rule nor the configuration names one. -/
def invalidCode : String := "INVALID"

structure DefaultCodes where
  bool : String := invalidCode
  int : String := invalidCode
  float : String := invalidCode
  string : String := invalidCode
  list : String := invalidCode
  object : String := invalidCode
  deriving DecidableEq, Repr

namespace DefaultCodes

def uniform (code : String) : DefaultCodes := ⟨code, code, code, code, code, code⟩

def ofKind (d : DefaultCodes) : Kind → String
  | .bool => d.bool
  | .int => d.int
  | .float => d.float
  | .string => d.string
  | .list => d.list
  | .object => d.object

def ofTree? (t : Json.Tree) : Option DefaultCodes :=
  match (t.fields? (Kind.all.map Kind.configName)).bind
      (·.mapM (Json.Tree.field? Json.Tree.string? invalidCode)) with
  | some [b, i, f, s, l, o] => some ⟨b, i, f, s, l, o⟩
  | _ => none

def text (d : DefaultCodes) : String :=
  Json.writeObject (Kind.all.map fun k => (k.configName, Json.writeString (d.ofKind k)))

@[simp] theorem ofKind_uniform (code : String) (k : Kind) : (uniform code).ofKind k = code := by
  cases k <;> rfl

end DefaultCodes

structure BuilderConfig where
  defaultCodes : DefaultCodes := {}
  deriving DecidableEq, Repr

namespace BuilderConfig

def ofTree? (t : Json.Tree) : Option BuilderConfig :=
  match t.fields? ["default_codes"] with
  | some [d] => (Json.Tree.field? DefaultCodes.ofTree? {} d).map BuilderConfig.mk
  | _ => none

def ofText? (s : String) : Option BuilderConfig := (Json.Tree.ofText? s).bind ofTree?

def text (c : BuilderConfig) : String := Json.writeObject [("default_codes", c.defaultCodes.text)]

end BuilderConfig

/-- What happens after a stopping rule has failed. -/
inductive StopAllPolicy
  | signal
  | halt
  deriving DecidableEq, Repr

/-- What the failure of a field means for the fields below it. -/
inductive DependencyPolicy
  | orderOnly
  | skipOnFailure
  deriving DecidableEq, Repr

namespace StopAllPolicy

def name : StopAllPolicy → String
  | signal => "signal"
  | halt => "halt"

def ofName? (name : String) : Option StopAllPolicy := [signal, halt].find? (·.name = name)

end StopAllPolicy

namespace DependencyPolicy

def name : DependencyPolicy → String
  | orderOnly => "order_only"
  | skipOnFailure => "skip_on_failure"

def ofName? (name : String) : Option DependencyPolicy :=
  [orderOnly, skipOnFailure].find? (·.name = name)

end DependencyPolicy

structure RuleSetConfig where
  stopAll : StopAllPolicy := .signal
  dependencies : DependencyPolicy := .orderOnly
  deriving DecidableEq, Repr

namespace RuleSetConfig

def ofTree? (t : Json.Tree) : Option RuleSetConfig :=
  match t.fields? ["stop_all", "dependencies"] with
  | some [s, d] =>
    match Json.Tree.field? (Json.Tree.choice? StopAllPolicy.ofName?) .signal s,
        Json.Tree.field? (Json.Tree.choice? DependencyPolicy.ofName?) .orderOnly d with
    | some s, some d => some ⟨s, d⟩
    | _, _ => none
  | _ => none

def ofText? (s : String) : Option RuleSetConfig := (Json.Tree.ofText? s).bind ofTree?

def text (c : RuleSetConfig) : String :=
  Json.writeObject [("stop_all", Json.writeString c.stopAll.name),
    ("dependencies", Json.writeString c.dependencies.name)]

end RuleSetConfig
end FieldRules

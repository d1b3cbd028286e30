import FieldRules.Config
import FieldRules.Graph
import FieldRules.Rule.Build
import FieldRules.Source

/-! The validators for one type of subject, in the order of their evaluation. -/
namespace FieldRules

structure RuleSet where
  validators : List Validator
  config : RuleSetConfig

namespace RuleSet

/-- The position of the first field that came before, counting on from `line`, and the field. -/
def firstRepeated (line : Nat) (seen : List String) : List String → Option (Nat × String)
  | [] => none
  | f :: fs => if f ∈ seen then some (line, f) else firstRepeated (line + 1) (f :: seen) fs

/-- The positions of fields in the order of their evaluation, where each field is given with those
that it depends on. Whether the dependencies run in a circle is for `cycle?` to find. -/
def dependencyOrder (cycle? : Graph → Option Nat) (fields : List (String × List String)) :
    Except BuildError (List Nat) :=
  match firstRepeated 0 [] (fields.map Prod.fst) with
  | some (line, field) => .error (.duplicateField field line)
  | none =>
    match cycle? (Graph.ofDependencies fields) with
    | some line => .error (.dependencyCycle ((fields[line]?.map Prod.fst).getD "") line)
    | none => .ok ((Graph.ofDependencies fields).sort.getD [])

def ofValidatorsBy (cycle? : Graph → Option Nat) (vs : List Validator) (config : RuleSetConfig) :
    Except BuildError RuleSet := do
  let order ← dependencyOrder cycle? (vs.map fun v => (v.field, v.dependsOn))
  return ⟨order.filterMap fun i => vs[i]?, config⟩

def ofValidators (vs : List Validator) (config : RuleSetConfig) : Except BuildError RuleSet :=
  ofValidatorsBy Graph.stuck? vs config

/-- Builds every line of the source; its shared rules are added to the builder's. -/
def ofSource (s : Source) (b : Builder) (config : RuleSetConfig) : Except BuildError RuleSet := do
  let lines ← s.lines
  let vs ← lines.mapM fun l => (b.withSharedAll s.shared).rule l.1 l.2
  ofValidators vs config

def ofText (s : String) (b : Builder) (config : RuleSetConfig) : Except BuildError RuleSet := do
  let source ← Source.ofText s
  ofSource source b config

def evaluationOrder (rs : RuleSet) : List String := rs.validators.map Validator.field

def find? (rs : RuleSet) (field : String) : Option Validator :=
  rs.validators.find? (·.field = field)

/-- Every code that a validator can raise. -/
def codes (rs : RuleSet) : Codes := Codes.ofList (rs.validators.flatMap (·.rule.codes.toList))

def size (rs : RuleSet) : Nat := rs.validators.length
def isEmpty (rs : RuleSet) : Bool := rs.validators.isEmpty

end RuleSet
end FieldRules

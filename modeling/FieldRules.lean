import FieldRules.RuleSet.Evaluate
import FieldRules.Value.Json
import FieldRules.Value.Nilable
import FieldRules.Proofs.DotPrefix
import FieldRules.Proofs.Schedule
import FieldRules.Proofs.Sorting
import FieldRules.Proofs.EvaluationOrder
import FieldRules.Proofs.Accounting
import FieldRules.Proofs.Overwriting
import FieldRules.Proofs.Trimming
import FieldRules.Proofs.Locality
import FieldRules.Proofs.Building
import FieldRules.Proofs.Effects
import FieldRules.Proofs.Runs
import FieldRules.Proofs.DeclarationOrder
import FieldRules.Proofs.Policies
import FieldRules.Proofs.Overriding
import FieldRules.Proofs.Skipping
import FieldRules.Proofs.Nesting
import FieldRules.Proofs.RaisedCodes
import FieldRules.Proofs.Elements
import FieldRules.Proofs.Likeness
import FieldRules.Proofs.Inertness
import FieldRules.Proofs.Wrapping
import FieldRules.Proofs.Circles
import FieldRules.Proofs.Chains
import FieldRules.Proofs.Breaking
import FieldRules.Proofs.Fitting
import FieldRules.Proofs.Exclusion
import FieldRules.Proofs.Escaping
import FieldRules.Proofs.Places
import FieldRules.Proofs.Spelling
import FieldRules.Proofs.Walking
import FieldRules.Proofs.Clausewise
import FieldRules.Proofs.Declarations
import FieldRules.Proofs.Flags
import FieldRules.Proofs.Strings
import FieldRules.Proofs.Trims
import FieldRules.Proofs.Absence
import FieldRules.Proofs.Accumulation
import FieldRules.Proofs.SingleTests
import FieldRules.Proofs.Numerals
import FieldRules.Proofs.Intervals
import FieldRules.Proofs.Membership
import FieldRules.Proofs.Paths
import FieldRules.Proofs.RoundTrip
import FieldRules.Proofs.Rounding
import FieldRules.Proofs.Widening

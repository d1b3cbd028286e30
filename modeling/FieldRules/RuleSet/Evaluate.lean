import FieldRules.Json.Writer
import FieldRules.Rule.Check
import FieldRules.RuleSet

/-! Evaluating a rule set on a subject. The policies decide which fields are skipped. -/
namespace FieldRules

/-- The verdicts on the fields that were evaluated, in order, whether a stopping rule failed and
which one did first, and the fields that were skipped. -/
structure Outcome where
  results : Entries Verdict := []
  stopAll : Bool := false
  stoppedBy : Option String := none
  skipped : List String := []
  deriving DecidableEq, Repr

namespace Outcome

def find? (o : Outcome) (field : String) : Option Verdict := o.results.get? field

/-- The fields that raised codes. -/
def failures (o : Outcome) : Entries Codes :=
  (o.results.filter fun e => !e.2.isValid).map fun e => (e.1, e.2.codes)

/-- No evaluated field raised a code. -/
def isValid (o : Outcome) : Bool := o.results.all fun e => e.2.isValid

def skip (o : Outcome) (field : String) : Outcome := { o with skipped := o.skipped ++ [field] }

/-- A stopping rule that fails first is kept as what stopped the evaluation. -/
def stop (o : Outcome) (field : String) : Outcome :=
  if o.stopAll then o else { o with stopAll := true, stoppedBy := some field }

def put (o : Outcome) (field : String) (verdict : Verdict) : Outcome :=
  { o with results := o.results.put field verdict }

def record (o : Outcome) (v : Validator) (verdict : Verdict) : Outcome :=
  (if !verdict.isValid && v.rule.stopAll then o.stop v.field else o).put v.field verdict

@[simp] theorem results_record (o : Outcome) (v : Validator) (verdict : Verdict) :
    (o.record v verdict).results = o.results.put v.field verdict := by
  rw [record, put, stop]
  split
  · split <;> rfl
  · rfl

@[simp] theorem skipped_record (o : Outcome) (v : Validator) (verdict : Verdict) :
    (o.record v verdict).skipped = o.skipped := by
  rw [record, put, stop]
  split
  · split <;> rfl
  · rfl

theorem stopAll_record (o : Outcome) (v : Validator) (verdict : Verdict) :
    (o.record v verdict).stopAll = (o.stopAll || (v.rule.stopAll && !verdict.isValid)) := by
  cases ho : o.stopAll <;> cases hr : v.rule.stopAll <;> cases hv : verdict.isValid <;>
    simp [record, put, stop, ho, hr, hv]

theorem stoppedBy_record (o : Outcome) (v : Validator) (verdict : Verdict) :
    (o.record v verdict).stoppedBy =
      if o.stopAll = false ∧ (v.rule.stopAll && !verdict.isValid) = true then some v.field
      else o.stoppedBy := by
  cases ho : o.stopAll <;> cases hr : v.rule.stopAll <;> cases hv : verdict.isValid <;>
    simp [record, put, stop, ho, hr, hv]

end Outcome

namespace RuleSetConfig

/-- Nothing more is evaluated. -/
def halts (c : RuleSetConfig) (o : Outcome) : Bool := c.stopAll = .halt && o.stopAll

/-- A field on the way to the validator's own failed. -/
def blocks (c : RuleSetConfig) (v : Validator) (failed : List String) : Bool :=
  c.dependencies = .skipOnFailure && v.dependsOn.any failed.contains

/-- Evaluates the validators in turn; a failure ends it. Fields that are skipped for one that failed
count as failed themselves. -/
def evaluate (c : RuleSetConfig) :
    List Validator → List String → Outcome → Context → Checked Outcome
  | [], _, o, ctx => (.ok o, ctx)
  | v :: vs, failed, o, ctx =>
    if c.halts o then c.evaluate vs failed (o.skip v.field) ctx
    else if c.blocks v failed then c.evaluate vs (v.field :: failed) (o.skip v.field) ctx
    else
      match v.validate ctx with
      | (.error e, ctx) => (.error e, ctx)
      | (.ok verdict, ctx) =>
        c.evaluate vs (if verdict.isValid then failed else v.field :: failed)
          (o.record v verdict) ctx

end RuleSetConfig

namespace RuleSet

def validate (rs : RuleSet) (subject : Value) : Except Failure Outcome × Value :=
  let (result, c) := rs.config.evaluate rs.validators [] {} { subject := subject }
  (result, c.subject)

end RuleSet

namespace Verdict

def text (v : Verdict) : String :=
  Json.writeObject [("unset", Json.writeBool v.unset), ("codes", Json.writeStrings v.codes.toList)]

end Verdict

namespace Outcome

def text (o : Outcome) : String :=
  Json.writeObject [
    ("results", Json.writeObject (o.results.map fun e => (e.1, e.2.text))),
    ("stop_all", Json.writeBool o.stopAll),
    ("stopped_by", Json.writeOption Json.writeString o.stoppedBy),
    ("skipped", Json.writeStrings o.skipped)]

end Outcome
end FieldRules

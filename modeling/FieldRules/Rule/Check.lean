import FieldRules.Rule

/-! Checking a field of a subject by a rule. A check comes to a verdict or fails, and in both cases
leaves a subject in which strings may have been trimmed. -/
namespace FieldRules

/-- A subject under check, with the path to check instead of each rule's own, if there is one. -/
structure Context where
  subject : Value
  override : Option FieldPath := none

/-- What a check came to, and the context that it leaves. -/
abbrev Checked (α : Type) := Except Failure α × Context

namespace Context

def withOverride (c : Context) (path : FieldPath) : Context := { c with override := some path }

/-- Runs within the override, and comes back to the one before. -/
def inScope {α : Type} (c : Context) (path : FieldPath) (run : Context → α × Context) :
    α × Context :=
  let (a, inner) := run (c.withOverride path)
  (a, { inner with override := c.override })

end Context

/-- Some of the fields is set. They are looked up in order, as far as the first that is. -/
def Value.anySet (subject : Value) : List FieldPath → Except PathError Bool
  | [] => .ok false
  | p :: ps =>
    match subject.resolve p with
    | .error e => .error e
    | .ok none => subject.anySet ps
    | .ok (some v) => if v.isUnset then subject.anySet ps else .ok true

/-- The subject with a value stored at the path. Where the path fails or leads to nothing the subject
stays as it is, and what stands at the path is replaced whatever it is. Rules that were built store
only where the path leads to a string (`Rule.Takes.exists_slot`), so no other case is met. -/
def Value.store (subject : Value) (p : FieldPath) (v : Value) : Value :=
  match subject.replace p v with
  | .ok (some s) => s
  | _ => subject

/-- A value stored at the path, as in the subject alone. -/
def Context.store (c : Context) (p : FieldPath) (v : Value) : Context :=
  { c with subject := c.subject.store p v }

/-- A chain on its way: the value that the next step sees, and the codes raised so far. -/
structure Progress where
  context : Context
  seen : Value
  codes : Codes

def Progress.raise (p : Progress) (code : String) : Progress := { p with codes := p.codes.add code }

/-- Checks the elements at the indexes one after the other and collects their codes; the first
failure ends it. -/
def checkEach (check : Nat → Context → Checked Verdict) : List Nat → Context → Codes → Checked Codes
  | [], c, codes => (.ok codes, c)
  | i :: is, c, codes =>
    match check i c with
    | (.error e, c) => (.error e, c)
    | (.ok v, c) => checkEach check is c (codes.addAll v.codes.toList)

mutual

/-- Checks the rule's own field, or what the context has in its place. -/
def Rule.check (r : Rule) (field : FieldPath) (c : Context) : Checked Verdict :=
  match r with
  | ⟨kind, _, missing, _, _, chain⟩ =>
    let path := c.override.getD field
    match c.subject.resolve path with
    | .error e => (.error (.path e), c)
    | .ok none => (.ok (.missing missing), c)
    | .ok (some v) =>
      if kind.accepts v = false then (.error (.wrongKind path.text kind v.shape), c)
      else if v.isUnset then (.ok (.missing missing), c)
      else
        match checkChain field path chain ⟨c, v, ∅⟩ with
        | (.ok codes, c) => (.ok (.present codes), c)
        | (.error e, c) => (.error e, c)

/-- Runs the steps on the value at the path. -/
def checkChain (field path : FieldPath) : List Step → Progress → Checked Codes
  | [], p => (.ok p.codes, p.context)
  | .stop :: steps, p =>
    if p.codes.isEmpty then checkChain field path steps p else (.ok p.codes, p.context)
  | .exclusive others code :: steps, p =>
    match p.context.subject.anySet others with
    | .error e => (.error (.path e), p.context)
    | .ok true => checkChain field path steps (p.raise code)
    | .ok false => checkChain field path steps p
  | .test t code :: steps, p =>
    checkChain field path steps (if t.holds p.seen then p else p.raise code)
  | .trim store :: steps, p =>
    let seen := p.seen.trimmed
    checkChain field path steps
      ⟨if store then p.context.store path seen else p.context, seen, p.codes⟩
  | .elements rule :: steps, p =>
    match checkEach (fun i c => c.inScope (path.element i) fun c => rule.check field c)
        (List.range p.seen.elementCount) p.context p.codes with
    | (.ok codes, c) => checkChain field path steps ⟨c, p.seen, codes⟩
    | (.error e, c) => (.error e, c)

end

def Validator.validate (v : Validator) (c : Context) : Checked Verdict := v.rule.check v.path c

namespace Rule
variable {r : Rule} {field : FieldPath} {c c' : Context}

theorem check_of_error {e : PathError}
    (h : c.subject.resolve (c.override.getD field) = .error e) :
    r.check field c = (.error (.path e), c) := by
  cases r
  simp [check, h]

theorem check_of_none (h : c.subject.resolve (c.override.getD field) = .ok none) :
    r.check field c = (.ok (.missing r.missing), c) := by
  cases r
  simp [check, h]

theorem check_of_some {v : Value} (h : c.subject.resolve (c.override.getD field) = .ok (some v)) :
    r.check field c =
      if r.kind.accepts v = false then
        (.error (.wrongKind (c.override.getD field).text r.kind v.shape), c)
      else if v.isUnset then (.ok (.missing r.missing), c)
      else
        let checked := checkChain field (c.override.getD field) r.chain ⟨c, v, ∅⟩
        (checked.1.map .present, checked.2) := by
  cases r
  simp only [check, h]
  split
  · rfl
  · split
    · rfl
    · cases checkChain _ _ _ _ with
      | mk result c' => cases result <;> rfl

/-- A check that comes to a verdict found nothing set, or its chain came to the end. -/
theorem of_check_eq_ok {verdict : Verdict} (h : r.check field c = (.ok verdict, c')) :
    verdict = .missing r.missing ∨
      ∃ v codes, checkChain field (c.override.getD field) r.chain ⟨c, v, ∅⟩ = (.ok codes, c') ∧
        verdict = .present codes := by
  cases hv : c.subject.resolve (c.override.getD field) with
  | error e => simp [check_of_error hv] at h
  | ok o =>
    cases o with
    | none =>
      rw [check_of_none hv] at h
      exact .inl (Except.ok.inj (Prod.mk.inj h).1).symm
    | some v =>
      rw [check_of_some hv] at h
      split at h
      · simp at h
      · split at h
        · exact .inl (Except.ok.inj (Prod.mk.inj h).1).symm
        · cases hc : checkChain field (c.override.getD field) r.chain ⟨c, v, ∅⟩ with
          | mk result c₁ =>
            cases result with
            | error e => simp [hc, Except.map] at h
            | ok codes =>
              obtain ⟨rfl, rfl⟩ := by simpa [hc, Except.map] using h
              exact .inr ⟨v, codes, hc, rfl⟩

end Rule

end FieldRules

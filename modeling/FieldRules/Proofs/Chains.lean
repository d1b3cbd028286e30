import FieldRules.Proofs.Locality

/-! Chains taken step by step. The steps in front of a place in a chain are all taken, or one of them
fails or ends the chain, and what stands behind it makes no difference. -/
namespace FieldRules

/-- What taking a step comes to. -/
inductive Taken
  | fails (e : Failure) (c : Context)
  /-- The chain ends with the codes raised so far. -/
  | stops
  | goesOn (p : Progress)

def Step.take (field path : FieldPath) : Step → Progress → Taken
  | .stop, p => if p.codes.isEmpty then .goesOn p else .stops
  | .exclusive others code, p =>
    match p.context.subject.anySet others with
    | .error e => .fails (.path e) p.context
    | .ok true => .goesOn (p.raise code)
    | .ok false => .goesOn p
  | .test t code, p => .goesOn (if t.holds p.seen then p else p.raise code)
  | .trim store, p =>
    .goesOn
      ⟨if store then p.context.store path p.seen.trimmed else p.context, p.seen.trimmed, p.codes⟩
  | .elements rule, p =>
    match checkEach (fun i c => c.inScope (path.element i) fun c => rule.check field c)
        (List.range p.seen.elementCount) p.context p.codes with
    | (.ok codes, c) => .goesOn ⟨c, p.seen, codes⟩
    | (.error e, c) => .fails e c

section
variable {field path : FieldPath} {s : Step} {steps before after : List Step} {p q r : Progress}
  {e : Failure} {c : Context}

/-- A chain takes its first step and goes on from there. -/
theorem checkChain_cons :
    checkChain field path (s :: steps) p =
      match s.take field path p with
      | .fails e c => (.error e, c)
      | .stops => (.ok p.codes, p.context)
      | .goesOn q => checkChain field path steps q := by
  cases s with
  | stop =>
    rw [checkChain, Step.take]
    split <;> rfl
  | exclusive others code =>
    rw [checkChain, Step.take]
    cases p.context.subject.anySet others with
    | error e => rfl
    | ok set => cases set <;> rfl
  | test t code => rfl
  | trim store => rfl
  | elements rule =>
    rw [checkChain, Step.take]
    cases checkEach _ _ _ _ with
    | mk result c => cases result <;> rfl

theorem Step.codes_of_take_stops (h : s.take field path p = .stops) : p.codes.isEmpty = false := by
  cases s <;> simp only [take] at h
  case stop =>
    split at h
    · simp at h
    · rename_i hp
      simpa using hp
  all_goals grind

/-- Only looking up other fields and checking elements can fail. -/
theorem Step.of_take_fails (h : s.take field path p = .fails e c) :
    (∃ others code e', s = .exclusive others code ∧ p.context.subject.anySet others = .error e') ∨
      ∃ rule, s = .elements rule ∧
        checkEach (fun i c => c.inScope (path.element i) fun c => rule.check field c)
          (List.range p.seen.elementCount) p.context p.codes = (.error e, c) := by
  cases s <;> simp only [take] at h
  case stop => split at h <;> simp at h
  case exclusive others code =>
    split at h
    · rename_i e' he
      exact .inl ⟨others, code, e', rfl, he⟩
    · simp at h
    · simp at h
  case elements rule =>
    split at h
    · simp at h
    · rename_i e' c' he
      obtain ⟨rfl, rfl⟩ := Taken.fails.inj h
      exact .inr ⟨rule, rfl, he⟩
  all_goals simp at h

/-- All the steps are taken, from one state of the chain to the other. -/
inductive Passes (field path : FieldPath) : List Step → Progress → Progress → Prop
  | nil (p : Progress) : Passes field path [] p p
  | cons {s : Step} {steps : List Step} {p q r : Progress} (h : s.take field path p = .goesOn q)
      (hs : Passes field path steps q r) : Passes field path (s :: steps) p r

theorem Passes.checkChain_append (h : Passes field path steps p q) (after : List Step) :
    checkChain field path (steps ++ after) p = checkChain field path after q := by
  induction h with
  | nil => rfl
  | cons h _ ih =>
    rw [List.cons_append, checkChain_cons, h]
    exact ih

theorem Passes.checkChain_eq (h : Passes field path steps p q) :
    checkChain field path steps p = (.ok q.codes, q.context) := by
  have := h.checkChain_append []
  rwa [List.append_nil, checkChain] at this

theorem Passes.checkChain_of_fails (hp : Passes field path before p q)
    (h : s.take field path q = .fails e c) (after : List Step) :
    checkChain field path (before ++ s :: after) p = (.error e, c) := by
  rw [hp.checkChain_append, checkChain_cons, h]

theorem Passes.checkChain_of_stops (hp : Passes field path before p q)
    (h : s.take field path q = .stops) (after : List Step) :
    checkChain field path (before ++ s :: after) p = (.ok q.codes, q.context) := by
  rw [hp.checkChain_append, checkChain_cons, h]

/-- How far a chain gets with its steps. -/
inductive Course (field path : FieldPath) (steps : List Step) (p : Progress) : Prop
  | fails {before after : List Step} {s : Step} {q : Progress} {e : Failure} {c : Context}
      (hsteps : steps = before ++ s :: after) (hp : Passes field path before p q)
      (h : s.take field path q = .fails e c)
  | stops {before after : List Step} {s : Step} {q : Progress}
      (hsteps : steps = before ++ s :: after) (hp : Passes field path before p q)
      (h : s.take field path q = .stops)
  | passes {q : Progress} (hp : Passes field path steps p q)

theorem course (field path : FieldPath) (steps : List Step) (p : Progress) :
    Course field path steps p := by
  induction steps generalizing p with
  | nil => exact .passes (.nil p)
  | cons s steps ih =>
    cases h : s.take field path p with
    | fails e c => exact .fails (List.nil_append _).symm (.nil p) h
    | stops => exact .stops (List.nil_append _).symm (.nil p) h
    | goesOn q =>
      cases ih q with
      | fails hsteps hp hs => exact .fails (congrArg (s :: ·) hsteps) (.cons h hp) hs
      | stops hsteps hp hs => exact .stops (congrArg (s :: ·) hsteps) (.cons h hp) hs
      | passes hp => exact .passes (.cons h hp)

/-- Taking the step leaves the context as it was. -/
def Taken.Keeps (c : Context) : Taken → Prop
  | .fails _ c' => c' = c
  | .stops => True
  | .goesOn q => q.context = c

/-- Only stores and the checks of elements change the context. -/
theorem Step.keeps_of_take (hs : s ≠ .trim true)
    (he : ∀ rule, s = .elements rule →
      (checkEach (fun i c => c.inScope (path.element i) fun c => rule.check field c)
        (List.range p.seen.elementCount) p.context p.codes).2 = p.context) :
    (s.take field path p).Keeps p.context := by
  cases s with
  | stop =>
    rw [take]
    split
    · rfl
    · trivial
  | exclusive others code =>
    rw [take]
    split <;> rfl
  | test t code =>
    rw [take]
    split <;> rfl
  | trim store =>
    cases store with
    | true => exact absurd rfl hs
    | false => rfl
  | elements rule =>
    have hrule := he rule rfl
    rw [take]
    split
    · rename_i h
      rwa [h] at hrule
    · rename_i h
      rwa [h] at hrule

/-- A chain leaves the context as it was if each of its steps does that gets its turn. -/
theorem checkChain_keeps (h : ∀ before s after q, steps = before ++ s :: after →
      Passes field path before p q → q.context = p.context →
        (s.take field path q).Keeps q.context) :
    (checkChain field path steps p).2 = p.context := by
  induction steps generalizing p with
  | nil => rfl
  | cons s steps ih =>
    have hs := h [] s steps p rfl (.nil p) rfl
    rw [checkChain_cons]
    cases ht : s.take field path p with
    | fails e c =>
      rw [ht] at hs
      exact hs
    | stops => rfl
    | goesOn q =>
      rw [ht] at hs
      have hq : q.context = p.context := hs
      refine (ih fun before s' after q' hsteps hp hq' => ?_).trans hq
      exact h (s :: before) s' after q' (by rw [hsteps]; rfl) (.cons ht hp) (hq'.trans hq)

/-- Later steps see the value as it was, or trimmed. -/
theorem Step.seen_of_take (h : s.take field path p = .goesOn q) :
    q.seen = p.seen ∨ q.seen = p.seen.trimmed := by
  cases s <;> simp only [take] at h
  case trim store =>
    obtain rfl := Taken.goesOn.inj h
    exact .inr rfl
  case test t code =>
    obtain rfl := Taken.goesOn.inj h
    left
    split <;> rfl
  all_goals
    split at h <;> cases h <;> exact .inl rfl

theorem Passes.seen (h : Passes field path steps p q) :
    q.seen = p.seen ∨ q.seen = p.seen.trimmed := by
  induction h with
  | nil => exact .inl rfl
  | cons h _ ih =>
    rcases Step.seen_of_take h with hs | hs
    · rwa [hs] at ih
    · rw [hs, Value.trimmed_trimmed, or_self] at ih
      exact .inr ih

/-- Whatever steps are taken, all they leave is a trimming of the value in its place. -/
theorem Passes.exists_stored {v : Value} {codes : Codes}
    (h : Passes field path steps ⟨c, v, codes⟩ q)
    (hv : c.subject.walk path.segments = .ok (some v)) :
    ∃ x, v.TrimsTo x ∧ q.context = c.store path x := by
  obtain ⟨result, x, hx, _, hrun⟩ :=
    checkChain_local c.subject.standing steps path v v v codes (.same v) (.inl rfl)
  have hsteps := hrun field c ⟨rfl, hv⟩
  rw [h.checkChain_eq] at hsteps
  exact ⟨x, hx, (Prod.mk.inj hsteps).2⟩

theorem Passes.trimsTo {v : Value} {codes : Codes} (h : Passes field path steps ⟨c, v, codes⟩ q)
    (hv : c.subject.walk path.segments = .ok (some v)) : c.subject.TrimsTo q.context.subject := by
  obtain ⟨x, hx, hcontext⟩ := h.exists_stored hv
  rw [hcontext, Context.store_eq]
  refine Value.trimsTo_put fun w hw => ?_
  obtain rfl : v = w := by simpa [hv] using hw
  exact hx

end
end FieldRules

import FieldRules.Proofs.Fitting
import Mathlib.Data.List.Induction

/-! Chains on strings. How a chain stands behind some of its steps can be told from these steps: what
is seen, and what is stored, is the string as it was or trimmed, and the codes are those of the steps
that failed. -/
namespace FieldRules

namespace Step

def isTrim : Step → Bool
  | trim _ => true
  | _ => false

def isStore : Step → Bool
  | trim store => store
  | _ => false

/-- What a step finds out about other fields. Only exclusions look at them. -/
def anySet (subject : Value) : Step → Except PathError Bool
  | exclusive others _ => subject.anySet others
  | _ => .ok false

/-- The code of the step, if it fails where it sees the string. -/
def raises? (subject : Value) (seen : String) : Step → Option String
  | exclusive others code =>
    match subject.anySet others with
    | .ok true => some code
    | _ => none
  | test t code => if t.holds (.scalar (.string seen)) then none else some code
  | _ => none

end Step

/-- What a step sees of the string behind others. -/
def seenBehind (before : List Step) (x : String) : String :=
  if before.any Step.isTrim then Text.trim x else x

/-- What is stored of the string behind steps. -/
def storedBehind (before : List Step) (x : String) : String :=
  if before.any Step.isStore then Text.trim x else x

/-- The codes of the steps that fail on a string, one after the other. -/
def failing (subject : Value) (x : String) (steps : List Step) : List String :=
  (List.range steps.length).filterMap fun i =>
    steps[i]?.bind (·.raises? subject (seenBehind (steps.take i) x))

/-- The steps that get their turn on a string: those in front of the first stop that has a failing
one before it. -/
structure IsReached (subject : Value) (x : String) (steps reached : List Step) : Prop where
  goesOn : ∀ before after, reached = before ++ .stop :: after → failing subject x before = []
  ends : reached = steps ∨
    ∃ after, steps = reached ++ .stop :: after ∧ failing subject x reached ≠ []

section
variable (subject : Value) (x : String)

theorem failing_concat (before : List Step) (s : Step) :
    failing subject x (before ++ [s]) =
      failing subject x before ++ (s.raises? subject (seenBehind before x)).toList := by
  have hfront : (List.range before.length).filterMap (fun i =>
      (before ++ [s])[i]?.bind (·.raises? subject (seenBehind ((before ++ [s]).take i) x))) =
        failing subject x before := by
    refine List.filterMap_congr fun i hi => ?_
    rw [List.mem_range] at hi
    rw [List.getElem?_append_left hi, List.take_append_of_le_length (Nat.le_of_lt hi)]
  have hlast : (before ++ [s])[before.length]? = some s := by simp
  rw [failing, List.length_append, List.length_singleton, List.range_succ, List.filterMap_append,
    hfront, List.filterMap_cons, hlast, List.take_left, Option.bind_some]
  cases s.raises? subject (seenBehind before x) <;> rfl

theorem exists_isReached (steps : List Step) : ∃ reached, IsReached subject x steps reached := by
  -- From the end, since what a stop does depends on all the steps before it.
  induction steps using List.reverseRecOn with
  | nil => exact ⟨[], by simp, .inl rfl⟩
  | append_singleton steps s ih =>
    obtain ⟨reached, hgoesOn, rfl | ⟨after, rfl, hfails⟩⟩ := ih
    · by_cases hs : s = .stop ∧ failing subject x reached ≠ []
      · obtain ⟨rfl, hfails⟩ := hs
        exact ⟨reached, hgoesOn, .inr ⟨[], rfl, hfails⟩⟩
      · refine ⟨reached ++ [s], fun before after heq => ?_, .inl rfl⟩
        rcases List.eq_nil_or_concat after with rfl | ⟨after, last, rfl⟩
        · obtain ⟨rfl, rfl⟩ := by simpa using heq
          simpa using hs
        · rw [List.concat_eq_append, ← List.cons_append, ← List.append_assoc] at heq
          exact hgoesOn before after (List.append_inj_left' heq rfl)
    · exact ⟨reached, hgoesOn, .inr ⟨after ++ [s], by simp, hfails⟩⟩

end

theorem Value.string?_eq_some_iff {v : Value} {x : String} :
    v.string? = some x ↔ v = .scalar (.string x) ∨ v = .nilable (.string x) := by
  cases v with
  | scalar s => cases s <;> simp [string?, scalar?]
  | nilable s => cases s <;> simp [string?, scalar?]
  | _ => simp [string?, scalar?]

section
variable {v : Value} {x : String} (h : v.string? = some x)
include h

theorem Value.string?_trimmed : v.trimmed.string? = some (Text.trim x) := by
  obtain rfl | rfl := string?_eq_some_iff.1 h <;> rfl

theorem Value.elementCount_of_string : v.elementCount = 0 := by
  obtain rfl | rfl := string?_eq_some_iff.1 h <;> rfl

/-- Tests do not tell a bare string from one in a nilable. -/
theorem Test.holds_of_string (t : Test) : t.holds v = t.holds (.scalar (.string x)) := by
  obtain rfl | rfl := Value.string?_eq_some_iff.1 h
  · rfl
  · cases t <;> rfl

theorem Kind.accepts_of_string : Kind.accepts .string v = true ∧ v.isUnset = false := by
  obtain rfl | rfl := Value.string?_eq_some_iff.1 h <;> exact ⟨rfl, rfl⟩

end

theorem Codes.ofList_concat (codes : List String) (code : String) :
    ofList (codes ++ [code]) = (ofList codes).add code := by
  rw [ofList, addAll_append]
  rfl

/-- How a chain stands behind steps that were all taken. -/
def standBehind (c : Context) (path : FieldPath) (found : Value) (x : String)
    (before : List Step) : Progress :=
  ⟨if before.any Step.isStore then c.store path found.trimmed else c,
    if before.any Step.isTrim then found.trimmed else found,
    Codes.ofList (failing c.subject x before)⟩

section
variable {c : Context} {field path : FieldPath} {found : Value} {x : String} {before : List Step}
  {s : Step} {steps reached : List Step} {q : Progress}
  (hwalk : c.subject.walk path.segments = .ok (some found)) (hx : found.string? = some x)

theorem isEmpty_codes_standBehind :
    (standBehind c path found x before).codes.isEmpty = (failing c.subject x before).isEmpty := by
  rw [Codes.isEmpty, standBehind, Codes.toList_ofList]
  cases failing c.subject x before with
  | nil => rfl
  | cons code codes => rw [List.eraseDups_cons]; rfl

theorem take_stop_of_failing (h : failing c.subject x before ≠ []) :
    Step.stop.take field path (standBehind c path found x before) = .stops := by
  rw [Step.take, isEmpty_codes_standBehind, if_neg (by simpa using h)]

include hwalk in
theorem standing_standBehind :
    (standBehind c path found x before).context.subject.standing = c.subject.standing := by
  rw [standBehind]
  split
  · exact (Context.Shows.store ⟨rfl, hwalk⟩ (.same found) (.trimmed found)).standing
  · rfl

include hx in
theorem seen_standBehind :
    (standBehind c path found x before).seen.string? = some (seenBehind before x) := by
  simp only [standBehind, seenBehind]
  split
  · exact Value.string?_trimmed hx
  · exact hx

include hwalk in
theorem store_standBehind :
    (standBehind c path found x before).context.store path found.trimmed =
      c.store path found.trimmed := by
  simp only [standBehind]
  split
  · exact Context.Shows.store_store ⟨rfl, hwalk⟩ (.same found) (.trimmed found) _
  · rfl

theorem trimmed_seen_standBehind :
    (standBehind c path found x before).seen.trimmed = found.trimmed := by
  simp only [standBehind]
  split
  · exact found.trimmed_trimmed
  · rfl

include hwalk hx

/-- A step that does not stop the chain leads to where it stands behind that step, or fails because
it cannot look up another field. -/
theorem take_standBehind (hs : s = .stop → failing c.subject x before = []) :
    s.take field path (standBehind c path found x before) =
      match s.anySet c.subject with
      | .error e => .fails (.path e) (standBehind c path found x before).context
      | .ok _ => .goesOn (standBehind c path found x (before ++ [s])) := by
  have hany : ∀ others, (standBehind c path found x before).context.subject.anySet others =
      c.subject.anySet others := fun others => by
    rw [Value.anySet_eq, standing_standBehind hwalk, ← Value.anySet_eq]
  cases s with
  | stop =>
    rw [Step.take, isEmpty_codes_standBehind, hs rfl]
    simp [Step.anySet, Step.raises?, Step.isStore, Step.isTrim, standBehind, failing_concat, hs rfl]
  | exclusive others code =>
    rw [Step.take, hany, Step.anySet]
    cases h : c.subject.anySet others with
    | error e => rfl
    | ok set =>
      cases set <;> simp [Step.raises?, Step.isStore, Step.isTrim, standBehind, failing_concat, h,
        Progress.raise, Codes.ofList_concat]
  | test t code =>
    rw [Step.take, t.holds_of_string (seen_standBehind hx)]
    cases h : t.holds (.scalar (.string (seenBehind before x))) <;>
      simp [Step.anySet, Step.raises?, Step.isStore, Step.isTrim, standBehind, failing_concat, h,
        Progress.raise, Codes.ofList_concat]
  | trim store =>
    rw [Step.take, trimmed_seen_standBehind, store_standBehind hwalk]
    cases store <;>
      simp [Step.anySet, Step.raises?, Step.isStore, Step.isTrim, standBehind, failing_concat]
  | elements rule =>
    rw [Step.take, Value.elementCount_of_string (seen_standBehind hx)]
    simp [Step.anySet, Step.raises?, Step.isStore, Step.isTrim, standBehind, failing_concat,
      checkEach]

/-- Steps that are all taken lead to where the chain stands behind them, and have looked up all that
they had to. -/
theorem Passes.standBehind_append
    (h : Passes field path steps (standBehind c path found x before) q) :
    q = standBehind c path found x (before ++ steps) ∧
      ∀ s ∈ steps, ∃ set, s.anySet c.subject = .ok set := by
  generalize hp : standBehind c path found x before = p at h
  induction h generalizing before with
  | nil => simp [hp]
  | @cons s steps p q r hs _ ih =>
    subst hp
    by_cases hends : s = .stop ∧ failing c.subject x before ≠ []
    · obtain ⟨rfl, hfails⟩ := hends
      rw [take_stop_of_failing hfails] at hs
      simp at hs
    · rw [take_standBehind hwalk hx fun h => by simpa using not_and.1 hends h] at hs
      cases hany : s.anySet c.subject with
      | error e => simp [hany] at hs
      | ok set =>
        rw [hany] at hs
        obtain ⟨rfl, hall⟩ := ih (Taken.goesOn.inj hs)
        exact ⟨by simp, List.forall_mem_cons.2 ⟨⟨set, hany⟩, hall⟩⟩

theorem Passes.eq_standBehind (h : Passes field path steps ⟨c, found, ∅⟩ q) :
    q = standBehind c path found x steps ∧ ∀ s ∈ steps, ∃ set, s.anySet c.subject = .ok set :=
  Passes.standBehind_append hwalk hx
    (show Passes field path steps (standBehind c path found x []) q from h)

variable (field) in
/-- A chain comes to where it stands behind the steps that get their turn, unless one of them cannot
look up another field. -/
theorem checkChain_of_isReached (h : IsReached c.subject x steps reached) :
    ((∀ s ∈ reached, ∃ set, s.anySet c.subject = .ok set) ∧
      checkChain field path steps ⟨c, found, ∅⟩ =
        (.ok (standBehind c path found x reached).codes,
          (standBehind c path found x reached).context)) ∨
    ∃ before s after e, reached = before ++ s :: after ∧ s.anySet c.subject = .error e ∧
      checkChain field path steps ⟨c, found, ∅⟩ =
        (.error (.path e), (standBehind c path found x before).context) := by
  have hturn : ∀ before s after, reached = before ++ s :: after →
      s = .stop → failing c.subject x before = [] := by
    rintro before s after hsteps rfl
    exact h.goesOn before after hsteps
  cases course field path reached ⟨c, found, ∅⟩ with
  | passes hp =>
    obtain ⟨rfl, hall⟩ := hp.eq_standBehind hwalk hx
    refine .inl ⟨hall, ?_⟩
    -- Behind them is the end of the chain, or a stop that ends it.
    rcases h.ends with rfl | ⟨after, rfl, hfails⟩
    · exact hp.checkChain_eq
    · exact hp.checkChain_of_stops (take_stop_of_failing hfails) after
  | @stops before after s q hsteps hp hs =>
    obtain ⟨rfl, _⟩ := hp.eq_standBehind hwalk hx
    rw [take_standBehind hwalk hx (hturn before s after hsteps)] at hs
    split at hs <;> simp at hs
  | @fails before after s q e c' hsteps hp hs =>
    obtain ⟨rfl, _⟩ := hp.eq_standBehind hwalk hx
    have htake : s.take field path (standBehind c path found x before) = _ :=
      take_standBehind hwalk hx (hturn before s after hsteps)
    cases hany : s.anySet c.subject with
    | ok set => simp [htake, hany] at hs
    | error e' =>
      rw [hany] at htake
      refine .inr ⟨before, s, after, e', hsteps, hany, ?_⟩
      obtain ⟨rest, rfl⟩ : ∃ rest, steps = reached ++ rest := by
        rcases h.ends with rfl | ⟨rest, rfl, _⟩
        · exact ⟨[], by simp⟩
        · exact ⟨_, rfl⟩
      rw [hsteps, List.append_assoc]
      exact hp.checkChain_of_fails htake _

end

section
variable {r : Rule} {field : FieldPath} {c : Context} {found : Value} {x : String}

theorem Rule.check_of_string (hkind : r.kind = .string)
    (hfound : c.subject.resolve (c.override.getD field) = .ok (some found))
    (hx : found.string? = some x) :
    r.check field c =
      let checked := checkChain field (c.override.getD field) r.chain ⟨c, found, ∅⟩
      (checked.1.map .present, checked.2) := by
  obtain ⟨hk, hu⟩ := Kind.accepts_of_string hx
  rw [check_of_some hfound, hkind, if_neg (by simp [hk]), if_neg (by simp [hu])]

/-- Where there is no string, the chain makes no difference. -/
theorem Rule.exists_check_of_no_string (field : FieldPath) (c : Context) (missing : Option String)
    (h : ∀ found x, c.subject.resolve (c.override.getD field) = .ok (some found) →
      found.string? ≠ some x) :
    ∃ result, ∀ r : Rule, r.kind = .string → r.missing = missing →
      r.check field c = (result, c) := by
  cases hfound : c.subject.resolve (c.override.getD field) with
  | error e => exact ⟨_, fun r _ _ => check_of_error hfound⟩
  | ok found? =>
    cases found? with
    | none => exact ⟨_, fun r _ hm => by rw [check_of_none hfound, hm]⟩
    | some found =>
      by_cases hk : Kind.accepts .string found = false
      · exact ⟨_, fun r hkind _ => by rw [check_of_some hfound, hkind, if_pos hk]⟩
      · by_cases hu : found.isUnset = true
        · exact ⟨_, fun r hkind hm => by
            rw [check_of_some hfound, hkind, if_neg hk, if_pos hu, hm]⟩
        · obtain ⟨x, hx⟩ := Option.isSome_iff_exists.1
            (Kind.isSome_string?_of_accepts (by simpa using hk) (by simpa using hu))
          exact absurd hx (h found x hfound)

/-- All that a check of strings may do is to store the one that it finds trimmed. -/
theorem Rule.check_snd_of_string (hkind : r.kind = .string) (field : FieldPath) (c : Context) :
    (r.check field c).2 = c ∨
      ∃ found x, c.subject.resolve (c.override.getD field) = .ok (some found) ∧
        found.string? = some x ∧
        (r.check field c).2 = c.store (c.override.getD field) found.trimmed := by
  by_cases h : ∃ found x, c.subject.resolve (c.override.getD field) = .ok (some found) ∧
      found.string? = some x
  · obtain ⟨found, x, hfound, hx⟩ := h
    have hcontext : ∀ before,
        (standBehind c (c.override.getD field) found x before).context = c ∨
          (standBehind c (c.override.getD field) found x before).context =
            c.store (c.override.getD field) found.trimmed := by
      intro before
      simp only [standBehind]
      split
      · exact .inr rfl
      · exact .inl rfl
    obtain ⟨reached, hreached⟩ := exists_isReached c.subject x r.chain
    rw [check_of_string hkind hfound hx]
    rcases checkChain_of_isReached field (Value.walk_of_resolve hfound) hx hreached with
      ⟨_, hrun⟩ | ⟨before, s, after, e, _, _, hrun⟩
    · rw [hrun]
      exact (hcontext reached).imp id fun h => ⟨found, x, hfound, hx, h⟩
    · rw [hrun]
      exact (hcontext before).imp id fun h => ⟨found, x, hfound, hx, h⟩
  · obtain ⟨result, hresult⟩ := exists_check_of_no_string field c r.missing
      fun found x hfound hx => h ⟨found, x, hfound, hx⟩
    exact .inl (by rw [hresult r hkind rfl])

/-- To check strings once more changes nothing. -/
theorem Rule.check_snd_check (hkind : r.kind = .string) (field : FieldPath) (c : Context) :
    (r.check field (r.check field c).2).2 = (r.check field c).2 := by
  rcases r.check_snd_of_string hkind field c with h | ⟨found, x, hfound, hx, h⟩
  · rw [h, h]
  · rw [h]
    have hstored := Context.Shows.store ⟨rfl, Value.walk_of_resolve hfound⟩ (.same found)
      (.trimmed found)
    have hover : (c.store (c.override.getD field) found.trimmed).override = c.override := rfl
    rcases r.check_snd_of_string hkind field (c.store (c.override.getD field) found.trimmed) with
      h' | ⟨found', x', hfound', _, h'⟩
    · exact h'
    · obtain rfl : found' = found.trimmed := by
        have hwalk := Value.walk_of_resolve hfound'
        rw [hover, hstored.walk] at hwalk
        simpa using hwalk.symm
      rw [h', hover, found.trimmed_trimmed]
      exact hstored.store_self

end

end FieldRules

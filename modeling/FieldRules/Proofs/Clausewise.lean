import FieldRules.Proofs.Overriding

/-! Building clause by clause. What one clause adds, and whether it is refused, does not depend on the
others: clauses build together where each of them builds on its own. -/
namespace FieldRules

section
variable {ε α β : Type}

theorem exists_ok_iff {x : Except ε α} : (∃ a, x = .ok a) ↔ ∀ e, x ≠ .error e := by
  cases x <;> simp

theorem map_eq_error_iff {x : Except ε α} {f : α → β} {e : ε} :
    x.map f = .error e ↔ x = .error e := by
  cases x <;> simp [Except.map]

end

/-- The two fail with the same error, or neither does. -/
def FailsAlike {α β : Type} (x : Except BuildError α) (y : Except BuildError β) : Prop :=
  ∀ e, x = .error e ↔ y = .error e

namespace FailsAlike
variable {α β γ : Type}

theorem refl (x : Except BuildError α) : FailsAlike x x := fun _ => .rfl

theorem ok (a : α) (b : β) : FailsAlike (.ok a) (.ok b) := by simp [FailsAlike]

theorem bind {x : Except BuildError α} {f : α → Except BuildError β} {g : α → Except BuildError γ}
    (h : ∀ a, FailsAlike (f a) (g a)) : FailsAlike (x >>= f) (x >>= g) := by
  intro e
  simp only [bind_eq_error_iff, h _ e]

theorem of_bind_pure (x : Except BuildError α) (f : α → β) :
    FailsAlike (x >>= fun a => pure (f a)) x := by
  intro e
  simp only [bind_eq_error_iff, pure_ne_error, and_false, exists_false, or_false]

theorem trans {x : Except BuildError α} {y : Except BuildError β} {z : Except BuildError γ}
    (h : FailsAlike x y) (h' : FailsAlike y z) : FailsAlike x z := fun e => (h e).trans (h' e)

theorem exists_ok_iff {x : Except BuildError α} {y : Except BuildError β} (h : FailsAlike x y) :
    (∃ a, x = .ok a) ↔ ∃ b, y = .ok b := by
  simp only [FieldRules.exists_ok_iff, ne_eq, h _]

end FailsAlike

namespace Clause
variable {texts : List String}

theorem parseAll_eq_ok (field : String) (h : ∀ text ∈ texts, codeOf text ≠ "") :
    parseAll field texts = .ok (texts.map ofText) :=
  mapM_eq_ok_of_forall fun text ht => by rw [parse_eq, if_neg (h text ht)]

theorem parseAll_eq_error (field : String) {text : String} (ht : text ∈ texts)
    (h : codeOf text = "") : parseAll field texts = .error (.emptyClause field) := by
  cases hp : parseAll field texts with
  | ok clauses =>
    obtain ⟨c, _, hc⟩ := exists_mem_of_mapM hp ht
    simp [parse_eq, h] at hc
  | error e =>
    obtain ⟨other, _, he⟩ := exists_of_mapM_eq_error hp
    rw [parse_eq] at he
    split at he
    · rw [← Except.error.inj he]
    · simp at he

theorem of_parseAll_eq_ok {field : String} {clauses : List Clause}
    (h : parseAll field texts = .ok clauses) :
    (∀ text ∈ texts, codeOf text ≠ "") ∧ clauses = texts.map ofText := by
  have hcode : ∀ text ∈ texts, codeOf text ≠ "" := fun text ht hblank => by
    simp [parseAll_eq_error field ht hblank] at h
  exact ⟨hcode, Except.ok.inj (h.symm.trans (parseAll_eq_ok field hcode))⟩

end Clause

namespace Scope

section
variable (sc : Scope) (code : String) (c : Clause)

theorem failsAlike_testPart (o : Operation) :
    FailsAlike (sc.testPart c o) (testPart { sc with defaultCode := code } c o) := by
  have ht : sc.test? c sc.kind o = test? { sc with defaultCode := code } c sc.kind o := by
    cases sc.kind <;> cases o <;> rfl
  simp only [testPart, ht]
  split
  · exact .refl _
  · exact .bind fun _ => .bind fun _ => .ok _ _

theorem failsAlike_operation (o : Operation) :
    FailsAlike (sc.operation c o) (operation { sc with defaultCode := code } c o) := by
  have htest := failsAlike_testPart sc code c
  obtain ⟨_, kind, _, _, _, _⟩ := sc
  cases o <;> simp only [operation]
  case required | stopAll | stop => exact .bind fun _ => .ok _ _
  case exclusive => exact .bind fun _ => .bind fun _ => .ok _ _
  case trim | storeTrimmed =>
    cases kind
    case string => exact .refl _
    all_goals exact htest _
  case elements =>
    cases kind
    case list => exact .refl _
    all_goals exact htest _
  all_goals
    cases kind <;> exact htest _

/-- The default code shows in what a clause adds, but not in whether it is refused. -/
theorem failsAlike_part : FailsAlike (sc.part c) (part { sc with defaultCode := code } c) := by
  simp only [part]
  split
  · exact .refl _
  · split
    · exact failsAlike_operation sc code c _
    · exact .refl _

end

/-- Steps are asked for by the operations that are no flags. -/
theorem Reads.exists_operation {sc : Scope} {c : Clause} {s : Step} (h : sc.Reads c (.step s)) :
    ∃ o : Operation, c.code = o.code ∧ o ≠ .required ∧ o ≠ .stopAll := by
  cases h with
  | @test o t h ht =>
    refine ⟨o, h, ?_, ?_⟩ <;> rintro rfl <;> cases hk : sc.kind <;> simp [hk, test?] at ht
  | _ h => exact ⟨_, h, by simp, by simp⟩

theorem Reads.isSome_step?_iff {sc : Scope} {c : Clause} {p : Part} (h : sc.Reads c p) :
    p.step?.isSome = true ↔
      c.code ∉ [sc.kind.code, Operation.required.code, Operation.stopAll.code] := by
  cases p with
  | step s =>
    obtain ⟨o, hcode, hr, hs⟩ := h.exists_operation
    simp [Part.step?, hcode, o.code_ne_code, Operation.code_inj, hr, hs]
  | declaration | required | stopAll =>
    cases h with
    | _ h => simp [Part.step?, h]

end Scope

namespace Builder
variable {b : Builder} {kind : Kind} {kind? : Option Kind} {field text : String} {path : FieldPath}
  {texts : List String}

/-- What clauses are read against that make a rule of the kind. -/
def scopeOf (b : Builder) (kind : Kind) (field : String) (texts : List String) : Scope :=
  b.scope (b.sharedRule field b.shared) field kind (texts.map Clause.ofText)

/-- What each clause was read as, where clauses make a rule of the kind. -/
def partsOf (b : Builder) (kind : Kind) (field : String) (texts : List String) :
    Except BuildError (List Part) :=
  texts.mapM fun text => (b.scopeOf kind field texts).part (.ofText text)

theorem build_eq (hp : FieldPath.parse field = .ok path)
    (h : ∀ text ∈ texts, Clause.codeOf text ≠ "")
    (hk : kind?.elim (Kind.detect field (texts.map Clause.ofText)) .ok = .ok kind) :
    b.build kind? field texts = b.partsOf kind field texts >>= fun parts =>
      pure ⟨path, Rule.ofParts kind (b.scopeOf kind field texts).defaultCode parts⟩ := by
  have hcompile : b.compile (b.sharedRule field b.shared) field kind? texts =
      (texts.map Clause.ofText).mapM (b.scopeOf kind field texts).part >>= fun parts =>
        pure (Rule.ofParts kind (b.scopeOf kind field texts).defaultCode parts) := by
    rw [compile, Clause.parseAll_eq_ok field h]
    cases kind? with
    | none =>
      rw [Option.elim] at hk
      simp only [bind, Except.bind, hk]
      rfl
    | some kind' =>
      obtain rfl : kind' = kind := Except.ok.inj hk
      rfl
  rw [build, hp, hcompile, partsOf, List.mapM_map, Function.comp_def]
  simp only [bind_assoc]
  rfl

/-- What clauses make that build: they declare the kind, unless it is given, and each was read. -/
theorem exists_parts_of_build {v : Validator} (hv : b.build kind? field texts = .ok v) :
    ∃ kind parts, FieldPath.parse field = .ok v.path ∧
      (∀ text ∈ texts, Clause.codeOf text ≠ "") ∧
      kind?.elim (Kind.detect field (texts.map Clause.ofText)) .ok = .ok kind ∧
      b.partsOf kind field texts = .ok parts ∧
      v.rule = Rule.ofParts kind (b.scopeOf kind field texts).defaultCode parts := by
  obtain ⟨hpath, hr⟩ := of_build_eq_ok hv
  obtain ⟨clauses, kind, parts, hc, hk, hp, hrule⟩ := of_compile_eq_ok hr
  obtain ⟨hcode, rfl⟩ := Clause.of_parseAll_eq_ok hc
  rw [List.mapM_map, Function.comp_def] at hp
  exact ⟨kind, parts, hpath, hcode, hk, hp, hrule⟩

/-- Clauses with the declarations of others make what they are read as together with these. -/
theorem build_of_declared {texts' : List String} {parts : List Part}
    (hp : FieldPath.parse field = .ok path) (h : ∀ text ∈ texts', Clause.codeOf text ≠ "")
    (hk : kind?.elim (Kind.detect field (texts.map Clause.ofText)) .ok = .ok kind)
    (hdeclared : Kind.declared (texts'.map Clause.ofText) =
      Kind.declared (texts.map Clause.ofText))
    (hdefault : ∀ configured, kind.defaultCode (texts'.map Clause.ofText) configured =
      kind.defaultCode (texts.map Clause.ofText) configured)
    (hparts : (texts'.mapM fun text => (b.scopeOf kind field texts).part (.ofText text)) =
      .ok parts) :
    b.build kind? field texts' =
      .ok ⟨path, Rule.ofParts kind (b.scopeOf kind field texts).defaultCode parts⟩ := by
  have hdetect : Kind.detect field (texts'.map Clause.ofText) =
      Kind.detect field (texts.map Clause.ofText) := by
    rw [Kind.detect, Kind.detect, hdeclared]
  have hscope : b.scopeOf kind field texts' = b.scopeOf kind field texts := by
    rw [scopeOf, scopeOf, scope, scope, hdefault]
  rw [build_eq hp h (by rw [hdetect, hk]), partsOf, hscope, hparts]
  rfl

theorem build_of_blank (hp : FieldPath.parse field = .ok path) (ht : text ∈ texts)
    (h : Clause.codeOf text = "") : b.build kind? field texts = .error (.emptyClause field) := by
  rw [build, hp, compile, Clause.parseAll_eq_error field ht h]
  rfl

theorem failsAlike_parts (hp : FieldPath.parse field = .ok path)
    (h : ∀ text ∈ texts, Clause.codeOf text ≠ "") :
    FailsAlike (b.ruleOfKind kind field texts) (b.partsOf kind field texts) := by
  rw [ruleOfKind, build_eq hp h rfl]
  exact .of_bind_pure _ _

/-- On its own a clause is refused as it is among others. -/
theorem failsAlike_single (hp : FieldPath.parse field = .ok path)
    (h : Clause.codeOf text ≠ "") (texts : List String) :
    FailsAlike (b.ruleOfKind kind field [text])
      ((b.scopeOf kind field texts).part (Clause.ofText text)) := by
  have hpart : FailsAlike ((b.scopeOf kind field [text]).part (.ofText text))
      ((b.scopeOf kind field texts).part (.ofText text)) :=
    Scope.failsAlike_part (b.scopeOf kind field [text]) (b.scopeOf kind field texts).defaultCode _
  refine (failsAlike_parts hp (by simpa using h)).trans (.trans ?_ hpart)
  rw [partsOf, List.mapM_cons, List.mapM_nil]
  exact .of_bind_pure _ _

section
variable (hp : FieldPath.parse field = .ok path) (h : ∀ text ∈ texts, Clause.codeOf text ≠ "")
include hp h

/-- With no blank code among them, clauses are refused for the first that is refused on its own. -/
theorem ruleOfKind_eq_error_iff {e : BuildError} :
    b.ruleOfKind kind field texts = .error e ↔
      ∃ before text after, texts = before ++ text :: after ∧
        (∀ other ∈ before, ∃ v, b.ruleOfKind kind field [other] = .ok v) ∧
        b.ruleOfKind kind field [text] = .error e := by
  rw [failsAlike_parts hp h e, partsOf, mapM_eq_error_iff]
  refine exists_congr fun before => exists_congr fun text => exists_congr fun after =>
    and_congr_right fun htexts => ?_
  have hsingle : ∀ other ∈ texts, FailsAlike (b.ruleOfKind kind field [other])
      ((b.scopeOf kind field texts).part (Clause.ofText other)) := fun other ho =>
    failsAlike_single hp (h other ho) texts
  refine and_congr (forall₂_congr fun other ho => ?_) ?_
  · exact ((hsingle other (by simp [htexts, ho])).exists_ok_iff).symm
  · exact ((hsingle text (by simp [htexts])) e).symm

/-- Clauses build together if each of them builds on its own. -/
theorem ruleOfKind_ok_iff :
    (∃ v, b.ruleOfKind kind field texts = .ok v) ↔
      ∀ text ∈ texts, ∃ v, b.ruleOfKind kind field [text] = .ok v := by
  rw [(failsAlike_parts hp h).exists_ok_iff]
  constructor
  · rintro ⟨parts, hparts⟩ text ht
    obtain ⟨p, _, hpart⟩ := exists_mem_of_mapM hparts ht
    exact (failsAlike_single hp (h text ht) texts).exists_ok_iff.2 ⟨p, hpart⟩
  · intro hall
    rw [exists_ok_iff]
    intro e he
    obtain ⟨text, ht, hpart⟩ := exists_of_mapM_eq_error he
    obtain ⟨v, hv⟩ := hall text ht
    have := (failsAlike_single hp (h text ht) texts e).2 hpart
    simp [hv] at this

end

/-- The steps of a chain are what the clauses that ask for one were read as, in their order. -/
theorem chain_of_ruleOfKind {v : Validator} (hv : b.ruleOfKind kind field texts = .ok v) :
    List.Forall₂ (fun text s => (b.scopeOf kind field texts).Reads (.ofText text) (.step s))
      (texts.filter fun text => Clause.codeOf text ∉
        [kind.code, Operation.required.code, Operation.stopAll.code])
      v.rule.chain := by
  obtain ⟨kind', parts, _, _, hk, hparts, hrule⟩ := exists_parts_of_build hv
  obtain rfl : kind = kind' := Except.ok.inj hk
  rw [hrule, Rule.ofParts, ← List.filterMap_eq_filter]
  refine List.rel_filterMap (fun text p hp => ?_) (mapM_eq_ok_iff.1 hparts)
  have hreads := Scope.reads_of_part hp
  have hcode : p.step?.isSome = true ↔ Clause.codeOf text ∉
      [kind.code, Operation.required.code, Operation.stopAll.code] := hreads.isSome_step?_iff
  cases p with
  | step s =>
    rw [Option.guard, if_pos (by simpa using hcode.1 rfl)]
    exact .some hreads
  | declaration | required | stopAll =>
    rw [Option.guard, if_neg fun h => ?_]
    · exact .none
    · exact absurd (hcode.2 (by simpa using h)) (by simp [Part.step?])

/-- Clauses are read one by one, and none is passed over. They build together if and only if each
builds on its own. If one of them has no code they are refused for that, and else as the first one
that is refused on its own is refused there. What is built has a step for each clause but for those
that declare its kind or set a flag, in the order of the clauses. -/
theorem ruleOfKind_clausewise (b : Builder) (kind : Kind) {field : String} {path : FieldPath}
    (hp : FieldPath.parse field = .ok path) (texts : List String) :
    ((∃ v, b.ruleOfKind kind field texts = .ok v) ↔
      ∀ text ∈ texts, ∃ v, b.ruleOfKind kind field [text] = .ok v) ∧
    (∀ text ∈ texts, Clause.codeOf text = "" →
      b.ruleOfKind kind field texts = .error (.emptyClause field)) ∧
    ((∀ text ∈ texts, Clause.codeOf text ≠ "") → ∀ e, b.ruleOfKind kind field texts = .error e ↔
      ∃ before text after, texts = before ++ text :: after ∧
        (∀ other ∈ before, ∃ v, b.ruleOfKind kind field [other] = .ok v) ∧
        b.ruleOfKind kind field [text] = .error e) ∧
    (∀ v, b.ruleOfKind kind field texts = .ok v →
      List.Forall₂ (fun text s => (b.scopeOf kind field texts).Reads (.ofText text) (.step s))
        (texts.filter fun text => Clause.codeOf text ∉
          [kind.code, Operation.required.code, Operation.stopAll.code])
        v.rule.chain) := by
  refine ⟨?_, fun text ht h => build_of_blank hp ht h, fun h e => ruleOfKind_eq_error_iff hp h,
    fun v hv => chain_of_ruleOfKind hv⟩
  by_cases h : ∀ text ∈ texts, Clause.codeOf text ≠ ""
  · exact ruleOfKind_ok_iff hp h
  · -- A blank code is refused alone and among others.
    push Not at h
    obtain ⟨text, ht, hblank⟩ := h
    have htogether : b.ruleOfKind kind field texts = _ := build_of_blank hp ht hblank
    have halone : b.ruleOfKind kind field [text] = _ :=
      build_of_blank hp List.mem_cons_self hblank
    constructor
    · rintro ⟨v, hv⟩
      simp [htogether] at hv
    · intro hall
      obtain ⟨v, hv⟩ := hall text ht
      simp [halone] at hv

/-- Two lengths that are no range are refused for the first one, unless there is a clause without a
code behind them. -/
theorem first_fault_clausewise :
    let b : Builder := {}
    FieldPath.parse "name" = .ok ⟨["name"], by simp⟩ ∧
    (∃ v, b.ruleOfKind .string "name" ["LEN:1-2", "STR:BAD", "REQ", "TRIM"] = .ok v ∧
      v.rule.chain.length = 2) ∧
    b.ruleOfKind .string "name" ["TRIM", "LEN:2-1", "LEN:3-2"] =
      .error (.invalidRange "name" "2-1" "LEN:2-1") ∧
    b.ruleOfKind .string "name" ["TRIM", "LEN:2-1", " :REQ"] = .error (.emptyClause "name") := by
  intro b
  have hp : FieldPath.parse "name" = .ok ⟨["name"], by simp⟩ := by rfl
  have hsingle : ∀ text ∈ ["LEN:1-2", "STR:BAD", "REQ", "TRIM"],
      ∃ v, b.ruleOfKind .string "name" [text] = .ok v := by
    have hall : ∀ text ∈ ["LEN:1-2", "STR:BAD", "REQ", "TRIM"],
        (b.ruleOfKind .string "name" [text]).toOption.isSome = true := by decide +kernel
    intro text ht
    obtain ⟨v, hv⟩ := Option.isSome_iff_exists.1 (hall text ht)
    exact ⟨v, toOption_eq_some_iff.1 hv⟩
  refine ⟨hp, ?_, ?_, ?_⟩
  · obtain ⟨hiff, _, _, hchain⟩ :=
      ruleOfKind_clausewise b .string hp ["LEN:1-2", "STR:BAD", "REQ", "TRIM"]
    obtain ⟨v, hv⟩ := hiff.2 hsingle
    exact ⟨v, hv, (hchain v hv).length_eq.symm.trans (by decide +kernel)⟩
  · obtain ⟨_, _, herror, _⟩ :=
      ruleOfKind_clausewise b .string hp ["TRIM", "LEN:2-1", "LEN:3-2"]
    refine (herror (by decide +kernel) _).2 ⟨["TRIM"], "LEN:2-1", ["LEN:3-2"], rfl, ?_, ?_⟩
    · intro other ho
      exact hsingle other (by simp_all)
    · have hrefused : (b.ruleOfKind .string "name" ["LEN:2-1"]).map (fun _ => ()) =
          .error (.invalidRange "name" "2-1" "LEN:2-1") := by decide +kernel
      exact map_eq_error_iff.1 hrefused
  · obtain ⟨_, hblank, _⟩ := ruleOfKind_clausewise b .string hp ["TRIM", "LEN:2-1", " :REQ"]
    exact hblank " :REQ" (by simp) (by decide +kernel)

end Builder
end FieldRules

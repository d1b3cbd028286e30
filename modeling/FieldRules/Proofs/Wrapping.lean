import FieldRules.Proofs.Likeness

/-! Scalars in nilables that are set. Checks treat them as the bare scalars, except that rules for
floats refuse integers in nilables where they take bare ones. -/
namespace FieldRules

namespace Value

/-- Bare scalars may have been wrapped in nilables; all else is the same. -/
inductive WrapsTo : Value → Value → Prop
  | same (v : Value) : WrapsTo v v
  | scalar (s : Scalar) : WrapsTo (.scalar s) (.nilable s)
  | list {xs ys : List Value} (h : List.Forall₂ WrapsTo xs ys) : WrapsTo (.list xs) (.list ys)
  | object {es fs : Entries Value} (hk : Entries.keys es = Entries.keys fs)
      (h : List.Forall₂ WrapsTo (es.map Prod.snd) (fs.map Prod.snd)) :
      WrapsTo (.object es) (.object fs)

namespace WrapsTo
variable {v w x y : Value}

theorem looksLike (h : v.WrapsTo w) : v.LooksLike w := by
  cases h with
  | same => exact .refl v
  | scalar s => exact ⟨rfl, rfl, rfl, rfl, fun t => by cases t <;> rfl⟩
  | list h =>
    refine ⟨rfl, rfl, rfl, h.length_eq.symm, fun t => ?_⟩
    cases t with
    | length bounds => rw [Test.holds, Test.holds, length?, length?, h.length_eq]
    | _ => rfl
  | object => exact looksLike_object _ _

theorem trimmed (h : v.WrapsTo w) : v.trimmed.WrapsTo w.trimmed := by
  cases h with
  | same => exact .same _
  | scalar s => exact .scalar s.trimmed
  | list h => exact .list h
  | object hk h => exact .object hk h

theorem child? (h : v.WrapsTo w) (s : String) :
    Corresponds WrapsTo (v.child? s) (w.child? s) := by
  cases h with
  | same => exact .refl .same _
  | scalar s => exact .error _
  | list h =>
    simp only [Value.child?]
    cases Text.natural? s.toList with
    | none => exact .error _
    | some i => exact .of_rel (rel_getElem? h i)
  | object hk h => exact .of_rel (Entries.rel_get? hk h s)

theorem setChild (h : v.WrapsTo w) (hxy : x.WrapsTo y) (s : String) :
    (v.setChild s x).WrapsTo (w.setChild s y) := by
  have hlist : ∀ {xs ys : List Value}, List.Forall₂ WrapsTo xs ys →
      ((Value.list xs).setChild s x).WrapsTo ((Value.list ys).setChild s y) := by
    intro xs ys h
    simp only [Value.setChild]
    cases Text.natural? s.toList with
    | none => exact .list h
    | some i => exact .list (forall₂_set h hxy i)
  have hobject : ∀ {es fs : Entries Value}, Entries.keys es = Entries.keys fs →
      List.Forall₂ WrapsTo (es.map Prod.snd) (fs.map Prod.snd) →
      ((Value.object es).setChild s x).WrapsTo ((Value.object fs).setChild s y) := by
    intro es fs hk h
    obtain ⟨hk, h⟩ := Entries.forall₂_put hk h hxy
    exact .object hk h
  cases h with
  | same =>
    cases v with
    | list xs => exact hlist (List.forall₂_same.2 fun x _ => .same x)
    | object es => exact hobject rfl (List.forall₂_same.2 fun x _ => .same x)
    | _ => exact .same _
  | scalar s => exact .scalar s
  | list h => exact hlist h
  | object hk h => exact hobject hk h

end WrapsTo
end Value

/-- A rule for floats came upon an integer in a nilable, which it does not take. -/
def Failure.RefusesNilable (e : Failure) (subject : Value) : Prop :=
  ∃ (path : FieldPath) (i : Int64), e = .wrongKind path.text .float (.scalar .int) ∧
    subject.walk path.segments = .ok (some (.nilable (.int i)))

theorem Kind.accepts_wrapped {v w : Value} (h : v.WrapsTo w) (k : Kind) :
    k.accepts w = k.accepts v ∨ k = .float ∧ ∃ i, v = .scalar (.int i) ∧ w = .nilable (.int i) := by
  cases h with
  | same => exact .inl rfl
  | scalar s =>
    cases s with
    | int i =>
      cases k with
      | float => exact .inr ⟨rfl, i, rfl, rfl⟩
      | _ => exact .inl rfl
    | _ => exact .inl rfl
  | list => exact .inl rfl
  | object => exact .inl rfl

/-- Subjects are alike, at all places, when scalars in one are wrapped in the other. -/
def Likeness.wrapped : Likeness where
  At _ := Value.WrapsTo
  Open _ := True
  Excuses := Failure.RefusesNilable
  open_of_append _ := trivial
  looksLike := Value.WrapsTo.looksLike
  trimmed := Value.WrapsTo.trimmed
  child? h _ := h.child? _
  setChild h _ _ _ hxy := h.setChild hxy _
  element _ _ _ := trivial
  accepts := by
    intro p v w k h
    rcases Kind.accepts_wrapped h k with hk | ⟨rfl, i, rfl, rfl⟩
    · exact .inl hk
    · exact .inr ⟨rfl, fun t ht => ⟨p, i, rfl, ht⟩⟩

/-- An integer in a nilable was there before the check. -/
theorem Value.TrimsTo.walk_nilable_int {v w : Value} (h : v.TrimsTo w) {p : List String} {i : Int64}
    (hw : w.walk p = .ok (some (.nilable (.int i)))) :
    v.walk p = .ok (some (.nilable (.int i))) := by
  have hmatch := h.walk p
  rw [hw] at hmatch
  generalize v.walk p = a at hmatch
  cases hmatch with
  | ok hrel =>
    cases hrel with
    | some h => cases h; rfl

/-- Bare scalars and scalars in nilables that are set come to the same verdict or the same failure,
and leave subjects that differ only in the wrapping, unless a rule for floats comes upon an integer
in a nilable. That it refuses, wherever it looks. -/
theorem validate_wrapped {v : Validator} {c c' : Context} (h : c.subject.WrapsTo c'.subject)
    (ho : c'.override = c.override) :
    (((v.validate c').1 = (v.validate c).1 ∧
        (v.validate c).2.subject.WrapsTo (v.validate c').2.subject) ∨
      ∃ e, (v.validate c').1 = .error e ∧ e.RefusesNilable c'.subject) ∧
    ∀ (path : FieldPath) (i : Int64), v.rule.kind = .float → c'.override.getD v.path = path →
      c'.subject.resolve path = .ok (some (.nilable (.int i))) →
        (v.validate c').1 = .error (.wrongKind path.text .float (.scalar .int)) := by
  refine ⟨?_, fun path i hk hp hfound => ?_⟩
  · have hagree : Likeness.wrapped.Agree (v.rule.check v.path c) (v.rule.check v.path c') :=
      Likeness.respects (fun _ _ _ _ _ => trivial) v.path c c' ⟨h, ho⟩ trivial
    have heffect := (v.rule.check_effect v.path c').1
    rw [Validator.validate, Validator.validate]
    generalize v.rule.check v.path c = x at hagree
    generalize v.rule.check v.path c' = y at hagree heffect
    cases hagree with
    | same h => exact .inl ⟨rfl, h.subject⟩
    | excused he =>
      obtain ⟨path, i, rfl, hw⟩ := he
      exact .inr ⟨_, rfl, path, i, rfl, heffect.walk_nilable_int hw⟩
  · subst hp
    rw [Validator.validate, Rule.check_of_some hfound, hk]
    rfl

/-- A bare tag that is trimmed and a nilable one that is too long, and the same with both in
nilables. A limit that is a bare integer is taken, and in a nilable it is refused. -/
theorem wrapped_tag_validate :
    let b : Builder := { shared := [("tag", ["STR", "HARDTRIM", "LEN:1-2:LONG"])] }
    let c : Context := ⟨.object [("tags",
      .list [.scalar (.string " a"), .nilable (.string "abc")])], none⟩
    let c' : Context := ⟨.object [("tags",
      .list [.nilable (.string " a"), .nilable (.string "abc")])], none⟩
    let limit : Context := ⟨.object [("limit", .nilable (.int 3))], none⟩
    c.subject.WrapsTo c'.subject ∧
    (∃ v, b.build none "tags" ["SLICE", "ELEM:tag"] = .ok v ∧
      (v.validate c).1 = .ok (.present (Codes.ofList ["LONG"])) ∧
      (v.validate c').1 = (v.validate c).1 ∧
      (v.validate c).2.subject.WrapsTo (v.validate c').2.subject) ∧
    ∃ v, b.build none "limit" ["FLOAT"] = .ok v ∧
      (v.validate limit).1 = .error (.wrongKind "limit" .float (.scalar .int)) := by
  intro b c c' limit
  have hwraps : c.subject.WrapsTo c'.subject :=
    .object rfl (.cons (.list (.cons (.scalar _) (.cons (.same _) .nil))) .nil)
  have htags : (b.build none "tags" ["SLICE", "ELEM:tag"]).toOption.map (fun v =>
      ((v.validate c).1, (v.validate c').1)) =
      some (.ok (.present (Codes.ofList ["LONG"])), .ok (.present (Codes.ofList ["LONG"]))) := by
    decide +kernel
  have hlimit : (b.build none "limit" ["FLOAT"]).toOption.map (fun v => (v.path, v.rule.kind)) =
      some (⟨["limit"], by simp⟩, .float) := by decide +kernel
  refine ⟨hwraps, ?_, ?_⟩
  · obtain ⟨v, hv, hrun⟩ := exists_of_toOption_map htags
    obtain ⟨hbare, hwrapped⟩ := Prod.mk.inj hrun
    refine ⟨v, hv, hbare, ?_⟩
    rcases (@validate_wrapped v c c' hwraps rfl).1 with h | ⟨e, he, _⟩
    · exact h
    · rw [hwrapped] at he
      exact absurd he (by simp)
  · obtain ⟨v, hv, hrule⟩ := exists_of_toOption_map hlimit
    obtain ⟨hpath, hkind⟩ := Prod.mk.inj hrule
    refine ⟨v, hv, ?_⟩
    exact (@validate_wrapped v limit limit (.same _) rfl).2 _ 3 hkind hpath rfl

/-- The same integer for the same rule, bare and in a nilable. -/
theorem wrapped_limit_refused :
    ∃ v, Builder.build {} none "limit" ["FLOAT"] = .ok v ∧
      (Value.object [("limit", .scalar (.int 3))]).WrapsTo
        (.object [("limit", .nilable (.int 3))]) ∧
      (v.validate { subject := .object [("limit", .scalar (.int 3))] }).1 = .ok (.present ∅) ∧
      (v.validate { subject := .object [("limit", .nilable (.int 3))] }).1 =
        .error (.wrongKind "limit" .float (.scalar .int)) := by
  have hrun : (Builder.build {} none "limit" ["FLOAT"]).toOption.map (fun v =>
      ((v.validate { subject := .object [("limit", .scalar (.int 3))] }).1,
        (v.validate { subject := .object [("limit", .nilable (.int 3))] }).1)) =
      some (.ok (.present ∅), .error (.wrongKind "limit" .float (.scalar .int))) := by decide +kernel
  obtain ⟨v, hv, hrun⟩ := exists_of_toOption_map hrun
  obtain ⟨hbare, hwrapped⟩ := Prod.mk.inj hrun
  exact ⟨v, hv, .object rfl (.cons (.scalar _) .nil), hbare, hwrapped⟩

end FieldRules

import FieldRules.Proofs.Building
import FieldRules.Proofs.Locality

/-! The field that a rule is built for shows only in why it cannot be built, and in where it looks
when the context has no other path for it. -/
namespace FieldRules

section
variable {ε α β : Type}

theorem toOption_eq_some_iff {x : Except ε α} {a : α} : x.toOption = some a ↔ x = .ok a := by
  cases x <;> simp [Except.toOption]

/-- What is known of a result that may have failed has come of one that did not. -/
theorem exists_of_toOption_map {x : Except ε α} {f : α → β} {b : β}
    (h : x.toOption.map f = some b) : ∃ a, x = .ok a ∧ f a = b := by
  obtain ⟨a, ha, hf⟩ := Option.map_eq_some_iff.1 h
  exact ⟨a, toOption_eq_some_iff.1 ha, hf⟩

theorem toOption_bind (x : Except ε α) (f : α → Except ε β) :
    (x >>= f).toOption = x.toOption.bind fun a => (f a).toOption := by
  cases x <;> rfl

theorem toOption_map (x : Except ε α) (f : α → β) : (x.map f).toOption = x.toOption.map f := by
  cases x <;> rfl

theorem toOption_mapM_congr {f g : α → Except ε β} {as : List α}
    (h : ∀ a ∈ as, (f a).toOption = (g a).toOption) :
    (as.mapM f).toOption = (as.mapM g).toOption := by
  induction as with
  | nil => rfl
  | cons a as ih =>
    have hrest := ih fun b hb => h b (List.mem_cons_of_mem a hb)
    simp only [List.mapM_cons, toOption_bind, h a List.mem_cons_self, hrest]

end

namespace Clause

theorem toOption_parse (field field' text : String) :
    (parse field text).toOption = (parse field' text).toOption := by
  rw [parse, parse]
  split
  · rfl
  · split <;> rfl

theorem toOption_parseAll (field field' : String) (texts : List String) :
    (parseAll field texts).toOption = (parseAll field' texts).toOption :=
  toOption_mapM_congr fun text _ => toOption_parse field field' text

theorem toOption_countParams (c : Clause) (field field' : String) (m n : Nat) :
    (c.countParams field m n).toOption = (c.countParams field' m n).toOption := by
  rw [countParams, countParams]
  split <;> rfl

end Clause

theorem Kind.toOption_detect (field field' : String) (clauses : List Clause) :
    (detect field clauses).toOption = (detect field' clauses).toOption := by
  rw [detect, detect]
  split
  · rfl
  · split <;> rfl

namespace Scope

/-- Clauses are read alike for two fields. -/
structure Agrees (sc sc' : Scope) : Prop where
  kind : sc.kind = sc'.kind
  defaultCode : sc.defaultCode = sc'.defaultCode
  registry : sc.registry = sc'.registry
  engine : sc.engine = sc'.engine
  element : ∀ name, (sc.element name).toOption = (sc'.element name).toOption

section
variable {sc sc' : Scope} (c : Clause)

theorem toOption_isLiteral : (sc.isLiteral c).toOption = (sc'.isLiteral c).toOption := by
  rw [isLiteral, isLiteral]
  split
  · rfl
  · split <;> rfl

theorem toOption_members {α : Type} (expected : LiteralType) (read : List Char → Option α) :
    (sc.members c expected read).toOption = (sc'.members c expected read).toOption :=
  toOption_mapM_congr fun s _ => by split <;> rfl

theorem toOption_bounds {α : Type} (read : String → Option (Bounds α)) :
    (sc.bounds c read).toOption = (sc'.bounds c read).toOption := by
  rw [bounds, bounds]
  split <;> rfl

variable (h : sc.Agrees sc')
include h

theorem Agrees.toOption_pattern : (sc.pattern c).toOption = (sc'.pattern c).toOption := by
  rw [pattern, pattern, h.engine]
  split <;> rfl

theorem Agrees.toOption_external (capability : ScalarType) (offer : Component → Option Test) :
    (sc.external c capability offer).toOption = (sc'.external c capability offer).toOption := by
  rw [external, external, h.registry]
  split
  · rfl
  · split
    · rfl
    · split <;> rfl

theorem Agrees.toOption_test? (k : Kind) (o : Operation) :
    (sc.test? c k o).map Except.toOption = (sc'.test? c k o).map Except.toOption := by
  cases k <;> cases o <;>
    simp only [test?, Option.map_some, Option.map_none, toOption_map, @toOption_isLiteral sc sc',
      @toOption_members sc sc', @toOption_bounds sc sc', h.toOption_pattern, h.toOption_external]

theorem Agrees.codeAt (index : Nat) : sc.codeAt c index = sc'.codeAt c index := by
  rw [Scope.codeAt, Scope.codeAt, h.defaultCode]

theorem Agrees.toOption_testPart (o : Operation) :
    (sc.testPart c o).toOption = (sc'.testPart c o).toOption := by
  have ht := h.toOption_test? c sc'.kind o
  rw [testPart, testPart, h.kind]
  cases hl : sc.test? c sc'.kind o with
  | none =>
    cases hr : sc'.test? c sc'.kind o with
    | none => rfl
    | some t => simp [hl, hr] at ht
  | some t =>
    cases hr : sc'.test? c sc'.kind o with
    | none => simp [hl, hr] at ht
    | some t' =>
      have htt : t.toOption = t'.toOption := by simpa [hl, hr] using ht
      simp only [toOption_bind, htt, h.codeAt, c.toOption_countParams sc.field sc'.field]

theorem Agrees.toOption_operation (o : Operation) :
    (sc.operation c o).toOption = (sc'.operation c o).toOption := by
  have hcount := c.toOption_countParams sc.field sc'.field
  have htest := h.toOption_testPart c
  cases o <;> simp only [operation, h.kind]
  case required => simp only [toOption_bind, hcount, h.codeAt]
  case stopAll => simp only [toOption_bind, hcount]
  case stop => simp only [toOption_bind, hcount]
  case exclusive => simp only [toOption_bind, hcount, h.codeAt]
  case elements =>
    cases sc'.kind
    case list => simp only [toOption_bind, hcount, h.element]
    all_goals exact htest _
  case trim =>
    cases sc'.kind
    case string => simp only [toOption_bind, hcount]
    all_goals exact htest _
  case storeTrimmed =>
    cases sc'.kind
    case string => simp only [toOption_bind, hcount]
    all_goals exact htest _
  all_goals
    cases sc'.kind <;> exact htest _

theorem Agrees.toOption_part : (sc.part c).toOption = (sc'.part c).toOption := by
  rw [part, part, h.kind]
  split
  · simp only [toOption_bind, c.toOption_countParams sc.field sc'.field]
  · split
    · exact h.toOption_operation c _
    · rfl

end
end Scope

namespace Builder
variable {b : Builder} {element element' : String → Except BuildError Rule}

theorem toOption_compile (h : ∀ name, (element name).toOption = (element' name).toOption)
    (field field' : String) (kind? : Option Kind) (texts : List String) :
    (b.compile element field kind? texts).toOption =
      (b.compile element' field' kind? texts).toOption := by
  have hparts : ∀ (kind : Kind) (clauses : List Clause),
      (clauses.mapM (b.scope element field kind clauses).part).toOption =
        (clauses.mapM (b.scope element' field' kind clauses).part).toOption :=
    fun kind clauses => toOption_mapM_congr fun c _ =>
      Scope.Agrees.toOption_part c ⟨rfl, rfl, rfl, rfl, h⟩
  cases kind? with
  | none =>
    simp only [compile, toOption_bind, Clause.toOption_parseAll field field',
      Kind.toOption_detect field field', hparts]
    rfl
  | some kind =>
    simp only [compile, toOption_bind, Clause.toOption_parseAll field field', hparts]
    rfl

/-- Shared rules are built alike for all fields, by induction on those that are left. -/
theorem toOption_sharedRule (field field' : String) (left : Entries (List String)) (name : String) :
    (b.sharedRule field left name).toOption = (b.sharedRule field' left name).toOption := by
  fun_induction Builder.sharedRule b field left name with
  | case1 left name texts hname _ ih =>
    rw [Builder.sharedRule]
    split
    · rename_i texts' htexts
      obtain rfl : texts = texts' := by simpa [hname] using htexts
      exact toOption_compile ih field field' none texts
    · simp_all
  | case2 left name hname hshared =>
    rw [Builder.sharedRule]
    split
    · simp_all
    · rw [if_pos hshared]
      rfl
  | case3 left name hname hshared =>
    rw [Builder.sharedRule]
    split
    · simp_all
    · rw [if_neg hshared]
      rfl

/-- What builds for one field builds the same rule for every other. -/
theorem build_eq_ok_of_parse {kind? : Option Kind} {field field' : String} {texts : List String}
    {v : Validator} {path : FieldPath} (h : b.build kind? field texts = .ok v)
    (hp : FieldPath.parse field' = .ok path) : b.build kind? field' texts = .ok ⟨path, v.rule⟩ := by
  have hrule : b.compile (b.sharedRule field' b.shared) field' kind? texts = .ok v.rule := by
    rw [← toOption_eq_some_iff, toOption_compile (toOption_sharedRule field' field b.shared) _
      field, toOption_eq_some_iff]
    exact (of_build_eq_ok h).2
  exact build_of_compile hp hrule

end Builder

/-- A check comes to the same wherever it looks at the same path of the same subject, whether that
is the rule's own or what the context has in its place. -/
theorem Rule.check_congr_path (r : Rule) {field field' : FieldPath} {c c' : Context}
    (hs : c'.subject = c.subject) (hp : c'.override.getD field' = c.override.getD field) :
    (r.check field' c').1 = (r.check field c).1 ∧
      (r.check field' c').2.subject = (r.check field c).2.subject := by
  obtain ⟨result, x, _, hrun⟩ := r.isLocal c.subject.standing (c.override.getD field)
    (c.subject.walk (c.override.getD field).segments)
  rw [hrun field c rfl ⟨rfl, rfl⟩, hrun field' c' hp ⟨by rw [hs], by rw [hs]⟩]
  refine ⟨rfl, ?_⟩
  rw [Context.store, Context.store, hs]

/-- An override stands for the path that it gives: what builds for one field builds for every other,
and then a check in a context with an override does what a check built for that path does, to the
same verdict or the same failure, and leaves the same subject. -/
theorem validate_override {b : Builder} {kind? : Option Kind} {texts : List String}
    {field other : String} {path otherPath : FieldPath} (hf : FieldPath.parse field = .ok path)
    (ho : FieldPath.parse other = .ok otherPath) :
    ((∃ v, b.build kind? field texts = .ok v) ↔ ∃ w, b.build kind? other texts = .ok w) ∧
    ∀ v w, b.build kind? field texts = .ok v → b.build kind? other texts = .ok w →
      ∀ subject : Value,
        (v.validate { subject := subject, override := some otherPath }).1 =
          (w.validate { subject := subject }).1 ∧
        (v.validate { subject := subject, override := some otherPath }).2.subject =
          (w.validate { subject := subject }).2.subject := by
  refine ⟨⟨?_, ?_⟩, fun v w hv hw subject => ?_⟩
  · rintro ⟨v, hv⟩
    exact ⟨_, Builder.build_eq_ok_of_parse hv ho⟩
  · rintro ⟨w, hw⟩
    exact ⟨_, Builder.build_eq_ok_of_parse hw hf⟩
  · obtain rfl := Except.ok.inj ((Builder.build_eq_ok_of_parse hv ho).symm.trans hw)
    exact v.rule.check_congr_path rfl rfl

/-- A list of tags that is checked at another place fails there at its second element, with the
first one trimmed. -/
theorem moved_tags_override :
    let b : Builder := { shared := [("tag", ["STR", "HARDTRIM"])] }
    let subject : Value := .object [("post", .object [("tags",
      .list [.scalar (.string " a"), .scalar (.int 3)])])]
    let path : FieldPath := ⟨["post", "tags"], by simp⟩
    FieldPath.parse "tags" = .ok ⟨["tags"], by simp⟩ ∧ FieldPath.parse "post.tags" = .ok path ∧
    ∃ v w, b.build none "tags" ["SLICE", "ELEM:tag"] = .ok v ∧
      b.build none "post.tags" ["SLICE", "ELEM:tag"] = .ok w ∧
      (v.validate { subject := subject, override := some path }).1 =
        .error (.wrongKind "post.tags.1" .string (.scalar .int)) ∧
      (w.validate { subject := subject }).1 =
        .error (.wrongKind "post.tags.1" .string (.scalar .int)) ∧
      (v.validate { subject := subject, override := some path }).2.subject =
        (w.validate { subject := subject }).2.subject := by
  intro b subject path
  have hf : FieldPath.parse "tags" = .ok ⟨["tags"], by simp⟩ := by rfl
  have ho : FieldPath.parse "post.tags" = .ok path := by rfl
  obtain ⟨hbuilds, hsame⟩ :=
    @validate_override b none ["SLICE", "ELEM:tag"] _ _ _ _ hf ho
  have hrun : (b.build none "post.tags" ["SLICE", "ELEM:tag"]).toOption.map (fun w =>
      (w.validate { subject := subject }).1) =
        some (.error (.wrongKind "post.tags.1" .string (.scalar .int))) := by decide +kernel
  obtain ⟨w, hw, herror⟩ := Option.map_eq_some_iff.1 hrun
  obtain ⟨v, hv⟩ := hbuilds.2 ⟨w, toOption_eq_some_iff.1 hw⟩
  obtain ⟨hverdict, hsubject⟩ := hsame v w hv (toOption_eq_some_iff.1 hw) subject
  exact ⟨hf, ho, v, w, hv, toOption_eq_some_iff.1 hw, hverdict.trans herror, herror, hsubject⟩

end FieldRules

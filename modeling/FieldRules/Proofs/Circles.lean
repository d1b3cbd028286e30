import FieldRules.Proofs.Nesting

/-! Shared rules that refer back to themselves. The expansion of references comes to an end, whatever
refers to what, and a rule is refused for referring back only if it does. -/
namespace FieldRules

/-- What is known of the error where this fails. -/
def FailsWith {α : Type} (P : BuildError → Prop) (x : Except BuildError α) : Prop :=
  ∀ e, x = .error e → P e

namespace FailsWith
variable {α β : Type} {P Q : BuildError → Prop}

theorem ok (a : α) : FailsWith P (.ok a) := by simp [FailsWith]

theorem error {e : BuildError} (h : P e) : FailsWith P (.error e : Except BuildError α) := by
  rintro _ ⟨⟩
  exact h

theorem imp {x : Except BuildError α} (h : FailsWith P x) (hpq : ∀ e, P e → Q e) :
    FailsWith Q x :=
  fun e he => hpq e (h e he)

theorem bind {x : Except BuildError α} {f : α → Except BuildError β} (hx : FailsWith P x)
    (hf : ∀ a, x = .ok a → FailsWith P (f a)) : FailsWith P (x >>= f) := by
  intro e h
  rcases bind_eq_error_iff.1 h with h | ⟨a, ha, h⟩
  · exact hx e h
  · exact hf a ha e h

theorem map {x : Except BuildError α} (hx : FailsWith P x) (f : α → β) : FailsWith P (x.map f) := by
  cases x with
  | error e => exact .error (hx e rfl)
  | ok a => exact .ok (f a)

theorem mapM {f : α → Except BuildError β} {as : List α} (hf : ∀ a ∈ as, FailsWith P (f a)) :
    FailsWith P (as.mapM f) := by
  intro e h
  obtain ⟨a, ha, h⟩ := exists_of_mapM_eq_error h
  exact hf a ha e h

end FailsWith

/-- The error is about the name of a shared rule. -/
def BuildError.isOfShared : BuildError → Bool
  | unknownSharedRule _ _ => true
  | recursiveSharedRule _ _ => true
  | _ => false

/-- Where this fails, it is not for the name of a shared rule. -/
abbrev NamesNoShared {α : Type} (x : Except BuildError α) : Prop :=
  FailsWith (fun e => e.isOfShared = false) x

theorem FieldPath.namesNoShared_parse (s : String) : NamesNoShared (parse s) := by
  rw [parse]
  split
  · exact .error rfl
  · exact .ok _

namespace Clause

theorem namesNoShared_parse (field text : String) : NamesNoShared (parse field text) := by
  rw [parse]
  split
  · exact .error rfl
  · split
    · exact .error rfl
    · exact .ok _

theorem namesNoShared_countParams (c : Clause) (field : String) (m n : Nat) :
    NamesNoShared (c.countParams field m n) := by
  rw [countParams]
  split
  · exact .ok _
  · exact .error rfl

end Clause

theorem Kind.namesNoShared_detect (field : String) (clauses : List Clause) :
    NamesNoShared (detect field clauses) := by
  rw [detect]
  split
  · exact .error rfl
  · split
    · exact .ok _
    · exact .error rfl

namespace Scope
variable (sc : Scope) (c : Clause)

theorem namesNoShared_others : NamesNoShared (others c) :=
  .mapM fun _ _ => FieldPath.namesNoShared_parse _

theorem namesNoShared_isLiteral : NamesNoShared (sc.isLiteral c) := by
  rw [isLiteral]
  split
  · exact .ok _
  · split
    · exact .ok _
    · exact .error rfl

theorem namesNoShared_members {α : Type} (expected : LiteralType) (read : List Char → Option α) :
    NamesNoShared (sc.members c expected read) := by
  refine .mapM fun s _ => ?_
  split
  · exact .ok _
  · exact .error rfl

theorem namesNoShared_bounds {α : Type} (read : String → Option (Bounds α)) :
    NamesNoShared (sc.bounds c read) := by
  rw [bounds]
  split
  · exact .ok _
  · exact .error rfl

theorem namesNoShared_pattern : NamesNoShared (sc.pattern c) := by
  rw [pattern]
  split
  · exact .ok _
  · exact .error rfl

theorem namesNoShared_external (capability : ScalarType) (offer : Component → Option Test) :
    NamesNoShared (sc.external c capability offer) := by
  rw [external]
  split
  · exact .error rfl
  · split
    · exact .error rfl
    · split
      · exact .error rfl
      · exact .ok _

theorem namesNoShared_test? {k : Kind} {o : Operation} {t : Except BuildError Test}
    (h : sc.test? c k o = some t) : NamesNoShared t := by
  cases k <;> cases o <;> simp only [test?, reduceCtorEq, Option.some.injEq] at h <;> subst h
  case bool.is => exact sc.namesNoShared_isLiteral c
  case string.pattern => exact sc.namesNoShared_pattern c
  case string.oneOf => exact .ok _
  case bool.external | int.external | float.external | string.external =>
    exact sc.namesNoShared_external c _ _
  case int.oneOf | float.oneOf => exact (sc.namesNoShared_members c _ _).map _
  all_goals exact (sc.namesNoShared_bounds c _).map _

theorem namesNoShared_testPart (o : Operation) : NamesNoShared (sc.testPart c o) := by
  rw [testPart]
  split
  · exact .error rfl
  · rename_i t ht
    exact (c.namesNoShared_countParams _ _ _).bind fun _ _ =>
      (sc.namesNoShared_test? c ht).bind fun _ _ => .ok _

/-- The error is about a shared rule only if the clause has the elements checked by one, and the
expansion of that failed with it. -/
def Blames (e : BuildError) : Prop :=
  e.isOfShared = true → ∃ name, c.code = Operation.elements.code ∧ c.param? 0 = some name ∧
    sc.element name = .error e

theorem blames_of_namesNoShared {α : Type} {x : Except BuildError α} (h : NamesNoShared x) :
    FailsWith (sc.Blames c) x :=
  h.imp fun e he ht => by simp [he] at ht

theorem blames_operation {o : Operation} (ho : c.code = o.code) :
    FailsWith (sc.Blames c) (sc.operation c o) := by
  have hcount := c.namesNoShared_countParams sc.field
  have htest := sc.blames_of_namesNoShared c (sc.namesNoShared_testPart c o)
  cases o <;> simp only [operation]
  case required | stopAll | stop =>
    exact sc.blames_of_namesNoShared c ((hcount _ _).bind fun _ _ => .ok _)
  case exclusive =>
    exact sc.blames_of_namesNoShared c
      ((hcount _ _).bind fun _ _ => (namesNoShared_others c).bind fun _ _ => .ok _)
  case trim | storeTrimmed =>
    cases sc.kind
    case string => exact sc.blames_of_namesNoShared c ((hcount _ _).bind fun _ _ => .ok _)
    all_goals exact htest
  case elements =>
    cases sc.kind
    case list =>
      refine (sc.blames_of_namesNoShared c (hcount _ _)).bind fun n hn => ?_
      obtain ⟨name, hname⟩ := Clause.exists_param_of_countParams hn
      refine .bind (fun e he _ => ⟨name, ho, hname, ?_⟩) fun _ _ => .ok _
      rwa [Clause.param, hname] at he
    all_goals exact htest
  all_goals
    cases sc.kind <;> exact htest

theorem blames_part : FailsWith (sc.Blames c) (sc.part c) := by
  rw [part]
  split
  · exact sc.blames_of_namesNoShared c
      ((c.namesNoShared_countParams _ _ _).bind fun _ _ => .ok _)
  · split
    · rename_i o ho
      exact sc.blames_operation c (Operation.ofCode?_eq_some.1 ho).symm
    · exact .error fun h => by simp [BuildError.isOfShared] at h

end Scope

namespace Builder
variable {b : Builder} {element : String → Except BuildError Rule} {field : String}
  {kind? : Option Kind} {texts : List String}

/-- Reading clauses fails for the name of a shared rule only where they refer to one that does. -/
theorem refersTo_of_compile_error {e : BuildError} (he : e.isOfShared = true)
    (h : b.compile element field kind? texts = .error e) :
    ∃ name, RefersTo texts name ∧ element name = .error e := by
  have hclauses : NamesNoShared (Clause.parseAll field texts) :=
    .mapM fun text _ => Clause.namesNoShared_parse field text
  have hparts : ∀ {clauses : List Clause} (kind : Kind), Clause.parseAll field texts = .ok clauses →
      clauses.mapM (b.scope element field kind clauses).part = .error e →
        ∃ name, RefersTo texts name ∧ element name = .error e := by
    intro clauses kind hc hp
    obtain ⟨c, hcm, hp⟩ := exists_of_mapM_eq_error hp
    obtain ⟨text, ht, htc⟩ := exists_of_mem_mapM hc hcm
    obtain ⟨name, hcode, hname, herror⟩ := Scope.blames_part _ c e hp he
    exact ⟨name, ⟨c, ⟨field, text, ht, htc⟩, hcode, hname⟩, herror⟩
  rw [compile, bind_eq_error_iff] at h
  rcases h with h | ⟨clauses, hc, h⟩
  · simp [hclauses e h] at he
  · cases kind? with
    | some kind =>
      rcases bind_eq_error_iff.1 h with h | ⟨kind', _, h⟩
      · exact absurd h pure_ne_error
      · rcases bind_eq_error_iff.1 h with h | ⟨parts, _, h⟩
        · exact hparts kind' hc h
        · exact absurd h pure_ne_error
    | none =>
      rcases bind_eq_error_iff.1 h with h | ⟨kind, _, h⟩
      · simp [Kind.namesNoShared_detect field clauses e h] at he
      · rcases bind_eq_error_iff.1 h with h | ⟨parts, _, h⟩
        · exact hparts kind hc h
        · exact absurd h pure_ne_error

/-- What the name of a shared rule comes to while others are open, those whose clauses are being
read. Rules stand in one another at most so deep. -/
inductive Expands (b : Builder) (field : String) :
    Nat → List String → String → Except BuildError Rule → Prop
  | recursive {depth : Nat} {isOpen : List String} {name : String} (h : name ∈ isOpen) :
      Expands b field depth isOpen name (.error (.recursiveSharedRule field name))
  | unknown {depth : Nat} {isOpen : List String} {name : String} (h : name ∉ isOpen)
      (hs : b.shared.get? name = none) :
      Expands b field depth isOpen name (.error (.unknownSharedRule field name))
  | rule {depth : Nat} {isOpen shared : List String} {name : String}
      {element : String → Except BuildError Rule} (h : name ∉ isOpen)
      (hs : b.shared.get? name = some shared)
      (he : ∀ other, Expands b field depth (name :: isOpen) other (element other)) :
      Expands b field (depth + 1) isOpen name (b.compile element field none shared)

namespace Expands
variable {depth depth' : Nat} {isOpen : List String} {name : String}
  {result result' : Except BuildError Rule}

theorem mono (h : b.Expands field depth isOpen name result) (hd : depth ≤ depth') :
    b.Expands field depth' isOpen name result := by
  induction h generalizing depth' with
  | recursive h => exact .recursive h
  | unknown h hs => exact .unknown h hs
  | rule h hs _ ih =>
    obtain ⟨d, rfl⟩ : ∃ d, depth' = d + 1 := ⟨depth' - 1, by omega⟩
    exact .rule h hs fun other => ih other (by omega)

/-- A name comes to one thing only. -/
theorem eq (h : b.Expands field depth isOpen name result)
    (h' : b.Expands field depth' isOpen name result') : result = result' := by
  induction h generalizing depth' result' with
  | recursive h =>
    cases h' with
    | recursive => rfl
    | unknown hn => exact absurd h hn
    | rule hn => exact absurd h hn
  | unknown h hs =>
    cases h' with
    | recursive hn => exact absurd hn h
    | unknown => rfl
    | rule _ hs' => simp [hs] at hs'
  | @rule depth isOpen shared name element h hs _ ih =>
    cases h' with
    | recursive hn => exact absurd hn h
    | unknown _ hs' => simp [hs] at hs'
    | @rule _ _ shared' _ element' _ hs' he' =>
      obtain rfl : shared = shared' := Option.some.inj (hs.symm.trans hs')
      obtain rfl : element = element' := funext fun other => ih other (he' other)
      rfl

end Expands

/-- The rules that are left are those that are not open, and each that is opened leaves fewer. -/
theorem expands_sharedRule {left : Entries (List String)} {isOpen : List String}
    (hopen : ∀ n ∈ isOpen, (b.shared.get? n).isSome)
    (hleft : ∀ n, left.get? n = if n ∈ isOpen then none else b.shared.get? n) (name : String) :
    b.Expands field left.length isOpen name (b.sharedRule field left name) := by
  fun_induction Builder.sharedRule b field left name generalizing isOpen with
  | case1 left name shared hname hlt ih =>
    have hn : name ∉ isOpen := fun h => by simp [hleft, h] at hname
    have hs : b.shared.get? name = some shared := by rwa [hleft, if_neg hn] at hname
    have hopen' : ∀ n ∈ name :: isOpen, (b.shared.get? n).isSome := by
      intro n h
      rcases List.mem_cons.1 h with rfl | h
      · simp [hs]
      · exact hopen n h
    have hleft' : ∀ n, (left.without name).get? n =
        if n ∈ name :: isOpen then none else b.shared.get? n := by
      intro n
      rw [Entries.get?_without, hleft]
      by_cases h : name = n
      · simp [h]
      · simp [h, Ne.symm h]
    have h : b.Expands field ((left.without name).length + 1) isOpen name _ :=
      .rule hn hs fun other => ih other hopen' hleft'
    exact h.mono hlt
  | case2 left name hname hshared =>
    refine .recursive ?_
    by_contra hn
    simp [hleft, hn] at hname
    simp [hname] at hshared
  | case3 left name hname hshared =>
    refine .unknown (fun h => hshared (hopen name h)) ?_
    simpa using hshared

/-- The shared rule of the name refers to itself, directly or through others. -/
def ReachesItself (b : Builder) (name : String) : Prop :=
  ∃ shared, b.shared.get? name = some shared ∧ b.Reaches shared name

/-- Every shared rule that clauses reach is built within the rule that they make. -/
theorem exists_rule_of_reaches {r : Rule} {name : String}
    (h : b.compile (b.sharedRule field b.shared) field kind? texts = .ok r)
    (hr : b.Reaches texts name) :
    ∃ shared e, b.shared.get? name = some shared ∧
      b.compile (b.sharedRule field b.shared) field none shared = .ok e ∧ r.Has (.elements e) := by
  induction hr with
  | first href =>
    obtain ⟨shared, e, hs, hc, he⟩ := exists_element_of_refersTo h href
    exact ⟨shared, e, hs, hc, .here he⟩
  | next _ hs href ih =>
    obtain ⟨shared, e, hs', hc, he⟩ := ih
    obtain rfl := Option.some.inj (hs.symm.trans hs')
    obtain ⟨shared', e', hs', hc', he'⟩ := exists_element_of_refersTo hc href
    exact ⟨shared', e', hs', hc', he.trans he'⟩

/-- Where a name is found open, the rule of that name led to it. -/
theorem reaches_of_sharedRule_error {left : Entries (List String)} {name other f : String}
    (hleft : ∀ n t, left.get? n = some t → b.shared.get? n = some t)
    (hopen : ∀ n shared, b.shared.get? n = some shared → left.get? n = none →
      b.Reaches shared name)
    (h : b.sharedRule field left name = .error (.recursiveSharedRule f other)) :
    f = field ∧ b.ReachesItself other ∧
      (other = name ∨ ∃ shared, b.shared.get? name = some shared ∧ b.Reaches shared other) := by
  fun_induction Builder.sharedRule b field left name with
  | case1 left name shared hname _ ih =>
    have hs := hleft name shared hname
    obtain ⟨next, href, hnext⟩ := refersTo_of_compile_error rfl h
    have hleft' : ∀ n t, (left.without name).get? n = some t → b.shared.get? n = some t := by
      intro n t ht
      rw [Entries.get?_without] at ht
      split at ht
      · simp at ht
      · exact hleft n t ht
    have hopen' : ∀ n t, b.shared.get? n = some t → (left.without name).get? n = none →
        b.Reaches t next := by
      intro n t ht hn
      rw [Entries.get?_without] at hn
      split at hn
      · subst n
        obtain rfl := Option.some.inj (hs.symm.trans ht)
        exact .first href
      · exact .next (hopen n t ht hn) hs href
    obtain ⟨rfl, hitself, hother⟩ := ih next hleft' hopen' hnext
    refine ⟨rfl, hitself, .inr ⟨shared, hs, ?_⟩⟩
    rcases hother with rfl | ⟨t, ht, hreach⟩
    · exact .first href
    · exact hreach.head href ht
  | case2 left name hname hshared =>
    obtain ⟨rfl, rfl⟩ := by simpa using h
    obtain ⟨shared, hs⟩ := Option.isSome_iff_exists.1 hshared
    exact ⟨rfl, ⟨shared, hs, hopen _ shared hs hname⟩, .inl rfl⟩
  | case3 => simp at h

/-- References are expanded to an end, nested no deeper than there are shared rules. What builds
reaches shared rules that are there and never themselves, and a rule that is refused for referring
back is reached by the clauses and reaches itself. -/
theorem build_expands (b : Builder) (kind? : Option Kind) (field : String) (texts : List String) :
    (∃ element, (∀ name result, b.Expands field b.shared.length [] name result ↔
        result = element name) ∧
      b.build kind? field texts = FieldPath.parse field >>= fun path =>
        b.compile element field kind? texts >>= fun rule => pure ⟨path, rule⟩) ∧
    (∀ v, b.build kind? field texts = .ok v → ∀ name, b.Reaches texts name →
      (b.shared.get? name).isSome ∧ ¬ b.ReachesItself name) ∧
    (∀ f name, b.build kind? field texts = .error (.recursiveSharedRule f name) →
      f = field ∧ b.Reaches texts name ∧ b.ReachesItself name) := by
  refine ⟨⟨b.sharedRule field b.shared, fun name result => ?_, rfl⟩, ?_, ?_⟩
  · have h : b.Expands field b.shared.length [] name (b.sharedRule field b.shared name) :=
      expands_sharedRule (by simp) (by simp) name
    exact ⟨fun h' => h'.eq h, fun h' => h' ▸ h⟩
  · intro v h name hr
    obtain ⟨shared, e, hs, hc, _⟩ := exists_rule_of_reaches (of_build_eq_ok h).2 hr
    refine ⟨by simp [hs], ?_⟩
    rintro ⟨shared', hs', hself⟩
    obtain rfl := Option.some.inj (hs.symm.trans hs')
    -- A rule that reaches itself would stand within itself.
    obtain ⟨shared', e', hs', hc', he⟩ := exists_rule_of_reaches hc hself
    obtain rfl := Option.some.inj (hs.symm.trans hs')
    obtain rfl := Except.ok.inj (hc.symm.trans hc')
    exact absurd he.sizeOf_lt (Nat.lt_irrefl _)
  · intro f name h
    rw [build, bind_eq_error_iff] at h
    rcases h with h | ⟨path, _, h⟩
    · have := FieldPath.namesNoShared_parse field _ h
      simp [BuildError.isOfShared] at this
    · rcases bind_eq_error_iff.1 h with h | ⟨rule, _, h⟩
      · obtain ⟨first, href, herror⟩ := refersTo_of_compile_error rfl h
        obtain ⟨hf, hitself, hother⟩ := reaches_of_sharedRule_error (fun _ _ h => h)
          (fun n t ht hn => by simp [ht] at hn) herror
        refine ⟨hf, ?_, hitself⟩
        rcases hother with rfl | ⟨shared, hs, hreach⟩
        · exact .first href
        · exact hreach.head href hs
      · exact absurd h pure_ne_error

/-- A grid that uses the rule for its cells three times, on two ways, is built. A chain of rules that
ends in a circle is refused for the rule that closes it. -/
theorem grid_build_expands :
    let b : Builder := { shared := [("row", ["SLICE", "ELEM:cell", "ELEM:cell"]), ("cell", ["INT"]),
      ("chain", ["SLICE", "ELEM:link"]), ("link", ["SLICE", "ELEM:back"]),
      ("back", ["SLICE", "ELEM:link"])] }
    (∃ v, b.build none "grid" ["SLICE", "ELEM:row", "ELEM:cell"] = .ok v ∧
      ∀ name, b.Reaches ["SLICE", "ELEM:row", "ELEM:cell"] name →
        (b.shared.get? name).isSome ∧ ¬ b.ReachesItself name) ∧
    b.build (some .list) "list" ["ELEM:chain"] = .error (.recursiveSharedRule "list" "link") ∧
      b.Reaches ["ELEM:chain"] "link" ∧ b.ReachesItself "link" := by
  intro b
  have hgrid : (b.build none "grid" ["SLICE", "ELEM:row", "ELEM:cell"]).isOk = true := by
    decide +kernel
  have hlist : (match b.build (some .list) "list" ["ELEM:chain"] with
      | .error e => some e
      | .ok _ => none) = some (.recursiveSharedRule "list" "link") := by decide +kernel
  refine ⟨?_, ?_⟩
  · cases hv : b.build none "grid" ["SLICE", "ELEM:row", "ELEM:cell"] with
    | error e => simp [hv, Except.isOk, Except.toBool] at hgrid
    | ok v => exact ⟨v, rfl, (build_expands b none "grid" _).2.1 v hv⟩
  · cases he : b.build (some .list) "list" ["ELEM:chain"] with
    | ok v => simp [he] at hlist
    | error e =>
      obtain rfl : e = .recursiveSharedRule "list" "link" := by simpa [he] using hlist
      exact ⟨rfl, ((build_expands b _ "list" _).2.2 _ _ he).2⟩

end Builder
end FieldRules

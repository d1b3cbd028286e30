import FieldRules.Rule.Build
import Mathlib.Data.List.Forall2

/-! Building undone: what each clause adds to a rule, and what a rule that was built is made of. -/
namespace FieldRules

section
variable {ε α β : Type}

theorem bind_eq_ok_iff {x : Except ε α} {f : α → Except ε β} {b : β} :
    (x >>= f) = .ok b ↔ ∃ a, x = .ok a ∧ f a = .ok b := by
  cases x with
  | error e => simp [bind, Except.bind]
  | ok a => simp [bind, Except.bind]

theorem pure_eq_ok_iff {a b : α} : (pure a : Except ε α) = .ok b ↔ a = b := by
  simp [pure, Except.pure]

theorem mapM_eq_ok_iff {f : α → Except ε β} {as : List α} {bs : List β} :
    as.mapM f = .ok bs ↔ List.Forall₂ (fun a b => f a = .ok b) as bs := by
  induction as generalizing bs with
  | nil => simp [pure, Except.pure, eq_comm]
  | cons a as ih =>
    simp only [List.mapM_cons, bind_eq_ok_iff, pure_eq_ok_iff, ih, List.forall₂_cons_left_iff]
    constructor
    · rintro ⟨b, hb, bs, hbs, rfl⟩
      exact ⟨b, bs, hb, hbs, rfl⟩
    · rintro ⟨b, bs, hb, hbs, rfl⟩
      exact ⟨b, hb, bs, hbs, rfl⟩

theorem mapM_append_eq_ok_iff {f : α → Except ε β} {as as' : List α} {cs : List β} :
    (as ++ as').mapM f = .ok cs ↔
      ∃ bs bs', as.mapM f = .ok bs ∧ as'.mapM f = .ok bs' ∧ cs = bs ++ bs' := by
  simp only [List.mapM_append, bind_eq_ok_iff, pure_eq_ok_iff]
  constructor
  · rintro ⟨bs, hbs, bs', hbs', rfl⟩
    exact ⟨bs, bs', hbs, hbs', rfl⟩
  · rintro ⟨bs, bs', hbs, hbs', rfl⟩
    exact ⟨bs, hbs, bs', hbs', rfl⟩

theorem bind_eq_error_iff {x : Except ε α} {f : α → Except ε β} {e : ε} :
    (x >>= f) = .error e ↔ x = .error e ∨ ∃ a, x = .ok a ∧ f a = .error e := by
  cases x with
  | error e => simp [bind, Except.bind]
  | ok a => simp [bind, Except.bind]

theorem pure_ne_error {a : α} {e : ε} : (pure a : Except ε α) ≠ .error e := by
  simp [pure, Except.pure]

/-- The error is that of the first member that fails. -/
theorem mapM_eq_error_iff {f : α → Except ε β} {as : List α} {e : ε} :
    as.mapM f = .error e ↔ ∃ before a after, as = before ++ a :: after ∧
      (∀ x ∈ before, ∃ y, f x = .ok y) ∧ f a = .error e := by
  induction as with
  | nil => simp [pure_ne_error]
  | cons a as ih =>
    simp only [List.mapM_cons, bind_eq_error_iff, pure_ne_error, and_false, exists_false, or_false,
      ih]
    constructor
    · rintro (ha | ⟨b, hb, before, a', after, rfl, hok, ha'⟩)
      · exact ⟨[], a, as, rfl, by simp, ha⟩
      · refine ⟨a :: before, a', after, rfl, ?_, ha'⟩
        intro x hx
        rcases List.mem_cons.1 hx with rfl | hx
        · exact ⟨b, hb⟩
        · exact hok x hx
    · rintro ⟨before, a', after, has, hok, ha'⟩
      cases before with
      | nil =>
        obtain ⟨rfl, rfl⟩ := List.cons.inj has
        exact .inl ha'
      | cons x before =>
        obtain ⟨rfl, rfl⟩ := List.cons.inj has
        obtain ⟨b, hb⟩ := hok a List.mem_cons_self
        exact .inr ⟨b, hb, before, a', after, rfl,
          fun y hy => hok y (List.mem_cons_of_mem a hy), ha'⟩

theorem exists_of_mapM_eq_error {f : α → Except ε β} {as : List α} {e : ε}
    (h : as.mapM f = .error e) : ∃ a ∈ as, f a = .error e := by
  obtain ⟨before, a, after, rfl, _, ha⟩ := mapM_eq_error_iff.1 h
  exact ⟨a, by simp, ha⟩

theorem exists_of_mem_mapM {f : α → Except ε β} {as : List α} {bs : List β}
    (h : as.mapM f = .ok bs) {b : β} (hb : b ∈ bs) : ∃ a ∈ as, f a = .ok b := by
  have h' := mapM_eq_ok_iff.1 h
  clear h
  induction h' with
  | nil => simp at hb
  | @cons a b' as bs hab _ ih =>
    rcases List.mem_cons.1 hb with rfl | hb
    · exact ⟨a, by simp, hab⟩
    · obtain ⟨a, ha, hab⟩ := ih hb
      exact ⟨a, by simp [ha], hab⟩

theorem exists_mem_of_mapM {f : α → Except ε β} {as : List α} {bs : List β}
    (h : as.mapM f = .ok bs) {a : α} (ha : a ∈ as) : ∃ b ∈ bs, f a = .ok b := by
  have h' := mapM_eq_ok_iff.1 h
  clear h
  induction h' with
  | nil => simp at ha
  | @cons a' b as bs hab _ ih =>
    rcases List.mem_cons.1 ha with rfl | ha
    · exact ⟨b, by simp, hab⟩
    · obtain ⟨b, hb, hab⟩ := ih ha
      exact ⟨b, by simp [hb], hab⟩

theorem mapM_eq_ok_of_forall {f : α → Except ε β} {g : α → β} {as : List α}
    (h : ∀ a ∈ as, f a = .ok (g a)) : as.mapM f = .ok (as.map g) :=
  mapM_eq_ok_iff.2 (List.forall₂_map_right_iff.2 (List.forall₂_same.2 h))

theorem exists_map_of_mapM [Nonempty β] {f : α → Except ε β} {as : List α} {bs : List β}
    (h : as.mapM f = .ok bs) : ∃ g, bs = as.map g ∧ ∀ a ∈ as, f a = .ok (g a) := by
  have hf : ∀ a ∈ as, ∃ b, f a = .ok b := fun a ha =>
    (exists_mem_of_mapM h ha).imp fun _ hb => hb.2
  choose! g hg using hf
  exact ⟨g, Except.ok.inj (h.symm.trans (mapM_eq_ok_of_forall hg)), hg⟩

end

/-- The clause is one of those that are written. -/
def Clause.IsIn (c : Clause) (texts : List String) : Prop :=
  ∃ field, ∃ text ∈ texts, Clause.parse field text = .ok c

/-- The code that a text starts with. -/
def Clause.codeOf (text : String) : String := Text.trim ((Text.splitEscaped ':' text).headD "")

/-- What a text says as a clause, if its code is not empty. -/
def Clause.ofText (text : String) : Clause :=
  ⟨codeOf text, (Text.splitEscaped ':' text).tail, text⟩

@[simp] theorem Clause.code_ofText (text : String) : (ofText text).code = codeOf text := rfl

theorem Clause.parse_eq (field text : String) :
    parse field text =
      if codeOf text = "" then .error (.emptyClause field) else .ok (ofText text) := by
  rw [parse, ofText, codeOf]
  cases Text.splitEscaped ':' text with
  | nil => rfl
  | cons code params => rfl

theorem Clause.code_of_parse {field text : String} {c : Clause} (h : parse field text = .ok c) :
    c.code = codeOf text := by
  rw [parse_eq] at h
  split at h
  · simp at h
  · rw [← Except.ok.inj h]
    rfl

theorem Clause.exists_param_of_countParams {c : Clause} {field : String} {m n : Nat}
    (h : c.countParams field 1 m = .ok n) : ∃ p, c.param? 0 = some p := by
  rw [countParams] at h
  split at h
  · rename_i hc
    exact ⟨_, List.getElem?_eq_getElem hc.1⟩
  · simp at h

/-- No operation is called like a kind. -/
theorem Operation.code_ne_code (o : Operation) (k : Kind) : o.code ≠ k.code := by
  cases o <;> cases k <;> decide

theorem Kind.ofCode?_code_of_operation (o : Operation) : ofCode? o.code = none := by
  cases o <;> decide

namespace Scope
variable {sc : Scope} {c : Clause}

theorem part_of_code {o : Operation} (h : c.code = o.code) : sc.part c = sc.operation c o := by
  have hd : c.declares sc.kind = false := by
    rw [Clause.declares, h]
    exact decide_eq_false (o.code_ne_code sc.kind)
  rw [part, hd, h, Operation.ofCode?_code]
  rfl

/-- What a clause may add, and for which code. -/
inductive Reads (sc : Scope) (c : Clause) : Part → Prop
  | declaration (h : c.code = sc.kind.code) : Reads sc c .declaration
  | required (h : c.code = Operation.required.code) : Reads sc c (.required (sc.codeAt c 0))
  | stopAll (h : c.code = Operation.stopAll.code) : Reads sc c .stopAll
  | stop (h : c.code = Operation.stop.code) : Reads sc c (.step .stop)
  | exclusive {paths : List FieldPath} (h : c.code = Operation.exclusive.code)
      (hp : others c = .ok paths) : Reads sc c (.step (.exclusive paths (sc.codeAt c 1)))
  | trim (h : c.code = Operation.trim.code) (hk : sc.kind = .string) :
      Reads sc c (.step (.trim false))
  | storeTrimmed (h : c.code = Operation.storeTrimmed.code) (hk : sc.kind = .string) :
      Reads sc c (.step (.trim true))
  | elements {name : String} {rule : Rule} (h : c.code = Operation.elements.code)
      (hk : sc.kind = .list) (hn : c.param? 0 = some name) (hr : sc.element name = .ok rule) :
      Reads sc c (.step (.elements rule))
  | test {o : Operation} {t : Test} (h : c.code = o.code)
      (ht : sc.test? c sc.kind o = some (.ok t)) : Reads sc c (.step (.test t (sc.codeAt c 1)))

theorem reads_of_testPart {o : Operation} {p : Part} (ho : c.code = o.code)
    (h : sc.testPart c o = .ok p) : sc.Reads c p := by
  rw [testPart] at h
  split at h
  · simp at h
  · rename_i test ht
    obtain ⟨_, _, t, ht', h⟩ := by simpa only [bind_eq_ok_iff] using h
    obtain rfl := pure_eq_ok_iff.1 h
    exact .test ho (by rw [ht, ht'])

theorem reads_of_operation {o : Operation} {p : Part} (ho : c.code = o.code)
    (h : sc.operation c o = .ok p) : sc.Reads c p := by
  cases o <;> simp only [operation] at h
  case required =>
    obtain ⟨_, _, h⟩ := bind_eq_ok_iff.1 h
    obtain rfl := pure_eq_ok_iff.1 h
    exact .required ho
  case stopAll =>
    obtain ⟨_, _, h⟩ := bind_eq_ok_iff.1 h
    obtain rfl := pure_eq_ok_iff.1 h
    exact .stopAll ho
  case stop =>
    obtain ⟨_, _, h⟩ := bind_eq_ok_iff.1 h
    obtain rfl := pure_eq_ok_iff.1 h
    exact .stop ho
  case exclusive =>
    obtain ⟨_, _, paths, hp, h⟩ := by simpa only [bind_eq_ok_iff] using h
    obtain rfl := pure_eq_ok_iff.1 h
    exact .exclusive ho hp
  case trim =>
    cases hk : sc.kind <;> simp only [hk] at h
    case string =>
      obtain ⟨_, _, h⟩ := bind_eq_ok_iff.1 h
      obtain rfl := pure_eq_ok_iff.1 h
      exact .trim ho hk
    all_goals exact reads_of_testPart ho h
  case storeTrimmed =>
    cases hk : sc.kind <;> simp only [hk] at h
    case string =>
      obtain ⟨_, _, h⟩ := bind_eq_ok_iff.1 h
      obtain rfl := pure_eq_ok_iff.1 h
      exact .storeTrimmed ho hk
    all_goals exact reads_of_testPart ho h
  case elements =>
    cases hk : sc.kind <;> simp only [hk] at h
    case list =>
      obtain ⟨_, hc, r, hr, h⟩ := by simpa only [bind_eq_ok_iff] using h
      obtain rfl := pure_eq_ok_iff.1 h
      obtain ⟨name, hn⟩ := Clause.exists_param_of_countParams hc
      rw [Clause.param, hn, Option.getD_some] at hr
      exact .elements ho hk hn hr
    all_goals exact reads_of_testPart ho h
  all_goals
    cases hk : sc.kind <;> simp only [hk] at h <;> exact reads_of_testPart ho h

/-- A clause that was read adds what its code stands for. -/
theorem reads_of_part {p : Part} (h : sc.part c = .ok p) : sc.Reads c p := by
  rw [part] at h
  split at h
  · rename_i hd
    obtain ⟨_, _, h⟩ := bind_eq_ok_iff.1 h
    obtain rfl := pure_eq_ok_iff.1 h
    exact .declaration (by simpa [Clause.declares] using hd)
  · split at h
    · rename_i o ho
      exact reads_of_operation (Operation.ofCode?_eq_some.1 ho).symm h
    · simp at h

end Scope

namespace Builder
variable {b : Builder} {element : String → Except BuildError Rule} {field : String}
  {kind? : Option Kind} {texts : List String}

/-- A rule that was compiled is made of the parts that its clauses add. -/
theorem of_compile_eq_ok {r : Rule} (h : b.compile element field kind? texts = .ok r) :
    ∃ clauses kind parts, Clause.parseAll field texts = .ok clauses ∧
      kind?.elim (Kind.detect field clauses) .ok = .ok kind ∧
      clauses.mapM (b.scope element field kind clauses).part = .ok parts ∧
      r = Rule.ofParts kind (b.scope element field kind clauses).defaultCode parts := by
  rw [compile, bind_eq_ok_iff] at h
  obtain ⟨clauses, hc, h⟩ := h
  cases kind? with
  | some kind =>
    obtain ⟨kind', hk, parts, hp, h⟩ := by simpa only [bind_eq_ok_iff] using h
    obtain rfl := pure_eq_ok_iff.1 hk
    exact ⟨clauses, kind, parts, hc, rfl, hp, (pure_eq_ok_iff.1 h).symm⟩
  | none =>
    obtain ⟨kind, hk, parts, hp, h⟩ := by simpa only [bind_eq_ok_iff] using h
    exact ⟨clauses, kind, parts, hc, hk, hp, (pure_eq_ok_iff.1 h).symm⟩

/-- Every part was added by a clause. -/
theorem exists_reads_of_mem {sc : Scope} {clauses : List Clause} {parts : List Part}
    (hc : Clause.parseAll field texts = .ok clauses) (hp : clauses.mapM sc.part = .ok parts)
    {p : Part} (h : p ∈ parts) : ∃ c : Clause, c.IsIn texts ∧ sc.Reads c p := by
  obtain ⟨c, hcm, hcp⟩ := exists_of_mem_mapM hp h
  obtain ⟨text, ht, htc⟩ := exists_of_mem_mapM hc hcm
  exact ⟨c, ⟨field, text, ht, htc⟩, Scope.reads_of_part hcp⟩

theorem of_build_eq_ok {v : Validator} (h : b.build kind? field texts = .ok v) :
    FieldPath.parse field = .ok v.path ∧
      b.compile (b.sharedRule field b.shared) field kind? texts = .ok v.rule := by
  obtain ⟨path, hp, rule, hr, h⟩ := by simpa only [build, bind_eq_ok_iff] using h
  obtain rfl := pure_eq_ok_iff.1 h
  exact ⟨hp, hr⟩

theorem build_of_compile {path : FieldPath} {r : Rule} (hp : FieldPath.parse field = .ok path)
    (hr : b.compile (b.sharedRule field b.shared) field kind? texts = .ok r) :
    b.build kind? field texts = .ok ⟨path, r⟩ := by
  simp only [build, bind_eq_ok_iff, pure_eq_ok_iff]
  exact ⟨path, hp, r, hr, rfl⟩

end Builder

/-- The elements of a list are to be checked by the shared rule of the name. -/
def RefersTo (texts : List String) (name : String) : Prop :=
  ∃ c : Clause, c.IsIn texts ∧ c.code = Operation.elements.code ∧ c.param? 0 = some name

namespace Builder

/-- The shared rules that clauses refer to, directly or through others. -/
inductive Reaches (b : Builder) (texts : List String) : String → Prop
  | first {name : String} (h : RefersTo texts name) : Reaches b texts name
  | next {name name' : String} {shared : List String} (h : Reaches b texts name)
      (hs : b.shared.get? name = some shared) (hr : RefersTo shared name') : Reaches b texts name'

theorem Reaches.head {b : Builder} {texts shared : List String} {name other : String}
    (hr : RefersTo texts name) (hs : b.shared.get? name = some shared)
    (h : b.Reaches shared other) : b.Reaches texts other := by
  induction h with
  | first h => exact .next (.first hr) hs h
  | next _ hs' hr' ih => exact .next ih hs' hr'

end Builder
end FieldRules

import FieldRules.Proofs.Nesting

/-! Lists whose rule does nothing but have the elements checked. They come to what their elements
come to, each checked alone in the subject as it was. -/
namespace FieldRules

namespace Value
variable {xs items : List Value} {i : Nat}

/-- A list is looked up at the numeral of an index, as far as indexes fit 64 bits. -/
theorem child?_toString (xs : List Value) (i : Nat) :
    (Value.list xs).child? (toString i) =
      if i < 0x10000000000000000 then .ok xs[i]? else .error (.badIndex (toString i)) := by
  rw [child?, Text.natural?_toString]
  by_cases hi : i < 0x10000000000000000
  · rw [if_pos hi, if_pos hi]
  · rw [if_neg hi, if_neg hi]

theorem walk_toString_congr (h : xs[i]? = items[i]?) :
    (Value.list xs).walk [toString i] = (Value.list items).walk [toString i] := by
  rw [walk_cons, walk_cons, child?_toString, child?_toString, h]

theorem setChild_toString (hi : i < 0x10000000000000000) (x : Value) :
    (Value.list xs).setChild (toString i) x = .list (xs.set i x) := by
  rw [setChild, Text.natural?_toString, if_pos hi]

/-- What a write at an index leaves there does not depend on the other elements. -/
theorem exists_put_toString (items : List Value) (i : Nat) (x : Value) :
    ∃ y, ∀ xs : List Value, xs[i]? = items[i]? →
      (Value.list xs).put [toString i] x = .list (xs.set i y) := by
  cases hw : items[i]? with
  | none =>
    refine ⟨.null, fun xs h => ?_⟩
    rw [List.set_eq_of_length_le (List.getElem?_eq_none_iff.1 h), put_cons_of_no_child]
    intro w hc
    rw [child?_toString, h] at hc
    split at hc <;> simp at hc
  | some w =>
    by_cases hi : i < 0x10000000000000000
    · refine ⟨w.put [] x, fun xs h => ?_⟩
      rw [put_cons_of_child (w := w), setChild_toString hi]
      rw [child?_toString, if_pos hi, h]
    -- An index that does not fit is never found, and the write leaves the list as it is.
    · refine ⟨w, fun xs h => ?_⟩
      obtain ⟨hlen, rfl⟩ := List.getElem?_eq_some_iff.1 h
      rw [List.set_getElem_self hlen, put_cons_of_no_child]
      intro u hc
      rw [child?_toString, if_neg hi] at hc
      simp at hc

end Value

/-- What the check of an element comes to, and what it leaves in the element's place, whatever the
other elements are by then. -/
structure ComesTo (rule : Rule) (σ : Standing) (path : FieldPath) (items : List Value) (i : Nat)
    (result : Except Failure Verdict) (y : Value) : Prop where
  trims : ∀ xs : List Value, xs[i]? = items[i]? → (Value.list xs).TrimsTo (.list (xs.set i y))
  check : ∀ (xs : List Value) (field : FieldPath) (c : Context), xs[i]? = items[i]? →
    c.Shows σ path (.ok (some (.list xs))) →
      (c.inScope (path.element i) fun c => rule.check field c) =
        (result, c.store path (.list (xs.set i y)))

theorem Rule.exists_comesTo (rule : Rule) (σ : Standing) (path : FieldPath) (items : List Value)
    (i : Nat) : ∃ result y, ComesTo rule σ path items i result y := by
  obtain ⟨result, x, hx, hcheck⟩ :=
    rule.isLocal σ (path.element i) ((Value.list items).walk [toString i])
  obtain ⟨y, hy⟩ := Value.exists_put_toString items i x
  refine ⟨result, y, fun xs h => ?_, fun xs field c h hc => ?_⟩
  · rw [← hy xs h]
    refine Value.trimsTo_put fun w hw => (hx w ?_).1
    rw [← Value.walk_toString_congr h, hw]
  · have helement := hc.element i
    rw [Value.walk_toString_congr h] at helement
    rw [Context.inScope, hcheck field _ rfl helement, ← hy xs h]
    exact congrArg (result, ·) (hc.store_element i x)

theorem checkEach_append (check : Nat → Context → Checked Verdict) (is js : List Nat) (c : Context)
    (codes : Codes) :
    checkEach check (is ++ js) c codes =
      match checkEach check is c codes with
      | (.ok codes, c) => checkEach check js c codes
      | (.error e, c) => (.error e, c) := by
  induction is generalizing c codes with
  | nil => rfl
  | cons i is ih =>
    rw [List.cons_append, checkEach, checkEach]
    cases hi : check i c with
    | mk result c' =>
      cases result with
      | error e => rfl
      | ok verdict => exact ih c' _

namespace ComesTo
variable {rule : Rule} {σ : Standing} {path : FieldPath} {items : List Value}
  {result : Nat → Except Failure Verdict} {y : Nat → Value} {verdicts : Nat → Verdict} {n : Nat}

/-- The elements below `n` are as their checks leave them, by induction on `n`: the check of the next
one finds it as it was. -/
theorem checkEach_range (h : ∀ i, ComesTo rule σ path items i (result i) (y i))
    (hok : ∀ i < n, result i = .ok (verdicts i)) :
    ∃ xs : List Value, xs.length = items.length ∧
      (∀ i, xs[i]? = if i < n ∧ i < items.length then some (y i) else items[i]?) ∧
      (Value.list items).TrimsTo (.list xs) ∧
      ∀ (field : FieldPath) (c : Context) (codes : Codes), c.Shows σ path (.ok (some (.list items))) →
        checkEach (fun i c => c.inScope (path.element i) fun c => rule.check field c)
            (List.range n) c codes =
          (.ok (codes.addAll ((List.range n).flatMap fun i => (verdicts i).codes.toList)),
            c.store path (.list xs)) := by
  induction n with
  | zero =>
    refine ⟨items, rfl, fun i => by simp, .same _, fun field c codes hc => ?_⟩
    rw [hc.store_self]
    rfl
  | succ n ih =>
    obtain ⟨xs, hlen, hxs, htrims, hrun⟩ := ih fun i hi => hok i (by omega)
    have hn : xs[n]? = items[n]? := by rw [hxs, if_neg (by omega)]
    refine ⟨xs.set n (y n), by rw [List.length_set, hlen], fun i => ?_,
      htrims.trans ((h n).trims xs hn), fun field c codes hc => ?_⟩
    · rw [List.getElem?_set, hlen]
      by_cases hi : n = i
      · subst hi
        by_cases hl : n < items.length
        · simp [hl]
        · simp [hl]
      · rw [if_neg hi, hxs]
        have hiff : i < n + 1 ↔ i < n := by omega
        simp only [hiff]
    · have hstored := hc.store (.same _) htrims
      rw [List.range_succ, checkEach_append, hrun field c codes hc]
      simp only [checkEach, (h n).check xs field _ hn hstored, hok n (by omega)]
      rw [hc.store_store (.same _) htrims, List.flatMap_append, Codes.addAll_append]
      simp

/-- The first element that fails ends the checks. -/
theorem checkEach_error (h : ∀ i, ComesTo rule σ path items i (result i) (y i)) {m : Nat}
    (hn : n < m) (hok : ∀ i < n, ∃ verdict, result i = .ok verdict) {e : Failure}
    (he : result n = .error e) (field : FieldPath) {c : Context} (codes : Codes)
    (hc : c.Shows σ path (.ok (some (.list items)))) :
    (checkEach (fun i c => c.inScope (path.element i) fun c => rule.check field c)
      (List.range m) c codes).1 = .error e := by
  have : Nonempty Verdict := ⟨.missing none⟩
  choose! verdicts hverdicts using hok
  obtain ⟨xs, _, hxs, htrims, hrun⟩ := checkEach_range h hverdicts
  have hx : xs[n]? = items[n]? := by rw [hxs, if_neg (by omega)]
  -- The checks below `n` come to an end, and the one at `n` finds its element as it was.
  obtain ⟨k, rfl⟩ : ∃ k, m = n + (k + 1) := ⟨m - n - 1, by omega⟩
  rw [List.range_add, checkEach_append, hrun field c codes hc, List.range_succ_eq_map,
    List.map_cons]
  simp only [checkEach, Nat.add_zero, (h n).check xs field _ hx (hc.store (.same _) htrims), he]

end ComesTo

/-- The check of one element of the list at the path, in a subject of its own. -/
def Validator.validateElement (w : Validator) (subject : Value) (path : FieldPath) (i : Nat) :
    Checked Verdict :=
  w.validate { subject := subject, override := some (path.element i) }

theorem ComesTo.validateElement {w : Validator} {subject : Value} {path : FieldPath}
    {items : List Value} {i : Nat} {result : Except Failure Verdict} {y : Value}
    (h : ComesTo w.rule subject.standing path items i result y)
    (hw : subject.walk path.segments = .ok (some (.list items))) :
    (w.validateElement subject path i).1 = result ∧
      (w.validateElement subject path i).2.subject = subject.store path (.list (items.set i y)) := by
  have hcheck := h.check items w.path { subject := subject } rfl ⟨rfl, hw⟩
  exact ⟨congrArg Prod.fst hcheck, congrArg (·.2.subject) hcheck⟩

/-- A rule with this step alone only has the elements checked. -/
theorem Rule.check_of_chain_eq {r e : Rule} {field : FieldPath} {c : Context} {items : List Value}
    (hkind : r.kind = .list) (hchain : r.chain = [.elements e])
    (hfound : c.subject.resolve (c.override.getD field) = .ok (some (.list items))) :
    r.check field c =
      let path := c.override.getD field
      let checked := checkEach (fun i c => c.inScope (path.element i) fun c => e.check field c)
        (List.range items.length) c ∅
      (checked.1.map .present, checked.2) := by
  rw [check_of_some hfound, hkind, hchain]
  simp only [Kind.accepts, Value.shape, Kind.shape, Value.isUnset, checkChain, Value.elementCount]
  cases checkEach _ _ _ _ with
  | mk result c' => cases result <;> simp

theorem Builder.kind_of_elements {b : Builder} {element : String → Except BuildError Rule}
    {field : String} {kind? : Option Kind} {texts : List String} {r e : Rule}
    (h : b.compile element field kind? texts = .ok r) (he : .elements e ∈ r.chain) :
    r.kind = .list := by
  obtain ⟨clauses, kind, parts, hc, _, hp, rfl⟩ := of_compile_eq_ok h
  obtain ⟨c, _, hr⟩ := exists_reads_of_mem hc hp (Rule.mem_chain_ofParts.1 he)
  cases hr with
  | elements _ hk => exact hk

section
variable {v w : Validator} {c : Context} {items : List Value} (hkind : v.rule.kind = .list)
  (hchain : v.rule.chain = [.elements w.rule])
  (hfound : c.subject.resolve (c.override.getD v.path) = .ok (some (.list items)))
include hkind hchain hfound

theorem validate_of_elements_ok {verdicts : Nat → Verdict}
    (hok : ∀ i < items.length,
      (w.validateElement c.subject (c.override.getD v.path) i).1 = .ok (verdicts i)) :
    ∃ codes xs, v.validate c = (.ok (.present codes), c.store (c.override.getD v.path) (.list xs)) ∧
      codes.toList = ((List.range items.length).flatMap
        fun i => (verdicts i).codes.toList).eraseDups ∧
      xs.length = items.length ∧
      ∀ i x, xs[i]? = some x →
        (w.validateElement c.subject (c.override.getD v.path) i).2.subject =
          c.subject.store (c.override.getD v.path) (.list (items.set i x)) := by
  have hwalk := Value.walk_of_resolve hfound
  choose result y hy using
    fun i => w.rule.exists_comesTo c.subject.standing (c.override.getD v.path) items i
  obtain ⟨xs, hlen, hxs, _, hrun⟩ := ComesTo.checkEach_range hy fun i hi =>
    ((hy i).validateElement hwalk).1.symm.trans (hok i hi)
  refine ⟨_, xs, ?_, Codes.toList_ofList _, hlen, fun i x hx => ?_⟩
  · rw [Validator.validate, Rule.check_of_chain_eq hkind hchain hfound]
    simp only [hrun v.path c ∅ ⟨rfl, hwalk⟩]
    rfl
  · have hi : i < items.length := hlen ▸ (List.getElem?_eq_some_iff.1 hx).1
    rw [hxs, if_pos ⟨hi, hi⟩] at hx
    rw [((hy i).validateElement hwalk).2, Option.some.inj hx]

theorem validate_of_element_error {i : Nat} (hi : i < items.length) {e : Failure}
    (he : (w.validateElement c.subject (c.override.getD v.path) i).1 = .error e)
    (hok : ∀ j < i, ∃ verdict,
      (w.validateElement c.subject (c.override.getD v.path) j).1 = .ok verdict) :
    (v.validate c).1 = .error e := by
  have hwalk := Value.walk_of_resolve hfound
  choose result y hy using
    fun i => w.rule.exists_comesTo c.subject.standing (c.override.getD v.path) items i
  have hresult : ∀ j, (w.validateElement c.subject (c.override.getD v.path) j).1 = result j :=
    fun j => ((hy j).validateElement hwalk).1
  simp only [hresult] at he hok
  rw [Validator.validate, Rule.check_of_chain_eq hkind hchain hfound]
  simp only [ComesTo.checkEach_error hy hi hok he v.path ∅ ⟨rfl, hwalk⟩]
  rfl

/-- Where not all elements come to a verdict, there is one that is the first to fail. -/
theorem validate_ok_iff_elements_ok :
    (∃ verdict, (v.validate c).1 = .ok verdict) ↔
      ∀ i < items.length, ∃ verdict,
        (w.validateElement c.subject (c.override.getD v.path) i).1 = .ok verdict := by
  constructor
  · rintro ⟨verdict, hv⟩ i
    induction i using Nat.strongRecOn with
    | ind i ih =>
      intro hi
      cases he : (w.validateElement c.subject (c.override.getD v.path) i).1 with
      | ok d => exact ⟨d, rfl⟩
      | error e =>
        have hfails := validate_of_element_error hkind hchain hfound hi he
          fun j hj => ih j hj (Nat.lt_trans hj hi)
        rw [hv] at hfails
        exact absurd hfails (by simp)
  · intro hok
    have : Nonempty Verdict := ⟨.missing none⟩
    choose! verdicts hverdicts using hok
    obtain ⟨codes, xs, hv, _⟩ := validate_of_elements_ok hkind hchain hfound hverdicts
    exact ⟨_, congrArg Prod.fst hv⟩

end

/-- A list whose rule has its elements checked by a shared rule, and nothing else, comes to what the
elements come to, each checked alone in the subject as it was: to a verdict where all of them do,
with their codes in the order of the elements, each as its own check leaves it, and else to what
the first one to fail comes to. -/
theorem validate_elements {b : Builder} {kind? : Option Kind} {field : String} {texts : List String}
    {v : Validator} {name : String} (h : b.build kind? field texts = .ok v)
    (href : RefersTo texts name) (hone : v.rule.chain.length = 1) :
    ∃ shared, b.shared.get? name = some shared ∧ (∃ w, b.rule field shared = .ok w) ∧
      ∀ (other : String) (w : Validator), b.rule other shared = .ok w →
        ∀ (c : Context) (path : FieldPath) (items : List Value), c.override.getD v.path = path →
          c.subject.resolve path = .ok (some (.list items)) →
          ((∃ verdict, (v.validate c).1 = .ok verdict) ↔
            ∀ i < items.length, ∃ verdict, (w.validateElement c.subject path i).1 = .ok verdict) ∧
          (∀ verdicts : Nat → Verdict,
            (∀ i < items.length, (w.validateElement c.subject path i).1 = .ok (verdicts i)) →
            ∃ codes xs, v.validate c = (.ok (.present codes), c.store path (.list xs)) ∧
              codes.toList = ((List.range items.length).flatMap
                fun i => (verdicts i).codes.toList).eraseDups ∧
              xs.length = items.length ∧
              ∀ i x, xs[i]? = some x → (w.validateElement c.subject path i).2.subject =
                c.subject.store path (.list (items.set i x))) ∧
          (∀ i < items.length, ∀ e, (w.validateElement c.subject path i).1 = .error e →
            (∀ j < i, ∃ verdict, (w.validateElement c.subject path j).1 = .ok verdict) →
            (v.validate c).1 = .error e) := by
  obtain ⟨hpath, hcompile⟩ := Builder.of_build_eq_ok h
  obtain ⟨shared, e, hshared, hbuilt, he⟩ := Builder.exists_element_of_refersTo hcompile href
  have hchain : v.rule.chain = [.elements e] := by
    obtain ⟨s, hs⟩ := List.length_eq_one_iff.1 hone
    rw [hs] at he
    rw [hs, List.mem_singleton.1 he]
  have hkind : v.rule.kind = .list := Builder.kind_of_elements hcompile he
  have hrule : b.rule field shared = .ok ⟨v.path, e⟩ := by
    simp only [Builder.rule, Builder.build, bind_eq_ok_iff, pure_eq_ok_iff]
    exact ⟨v.path, hpath, e, hbuilt, rfl⟩
  refine ⟨shared, hshared, ⟨_, hrule⟩, fun other w hw c path items hp hfound => ?_⟩
  obtain rfl : w.rule = e := by
    have := Builder.build_eq_ok_of_parse hrule (Builder.of_build_eq_ok hw).1
    exact congrArg Validator.rule (Except.ok.inj (hw.symm.trans this))
  subst hp
  exact ⟨validate_ok_iff_elements_ok hkind hchain hfound,
    fun verdicts hok => validate_of_elements_ok hkind hchain hfound hok,
    fun i hi e he hok => validate_of_element_error hkind hchain hfound hi he hok⟩

/-- Of two tags the one that is too long is found by itself, and one that is no string fails by
itself. -/
theorem two_tags_elements :
    let b : Builder := { shared := [("tag", ["STR", "HARDTRIM", "LEN:1-2:LONG"])] }
    let path : FieldPath := ⟨["tags"], by simp⟩
    let long : Value := .object [("tags",
      .list [.scalar (.string " a"), .scalar (.string "abc ")])]
    let mixed : Value := .object [("tags", .list [.scalar (.string " a"), .scalar (.int 3)])]
    RefersTo ["SLICE", "REQ", "ELEM:tag"] "tag" ∧
    ∃ v w, b.build none "tags" ["SLICE", "REQ", "ELEM:tag"] = .ok v ∧ v.rule.chain.length = 1 ∧
      b.rule "tag" ["STR", "HARDTRIM", "LEN:1-2:LONG"] = .ok w ∧
      (∃ codes xs, v.validate { subject := long } =
          (.ok (.present codes), ⟨long.store path (.list xs), none⟩) ∧ codes.toList = ["LONG"] ∧
        xs.length = 2 ∧ ∀ i x, xs[i]? = some x → (w.validateElement long path i).2.subject =
          long.store path (.list ([.scalar (.string " a"), .scalar (.string "abc ")].set i x))) ∧
      (v.validate { subject := mixed }).1 = .error (.wrongKind "tags.1" .string (.scalar .int)) := by
  intro b path long mixed
  have href : RefersTo ["SLICE", "REQ", "ELEM:tag"] "tag" := by
    have hparse : (Clause.parse "tags" "ELEM:tag").toOption.map (fun c => (c.code, c.param? 0)) =
        some ("ELEM", some "tag") := by decide +kernel
    obtain ⟨c, hc, hcode⟩ := exists_of_toOption_map hparse
    obtain ⟨hcode, hparam⟩ := Prod.mk.inj hcode
    exact ⟨c, ⟨"tags", "ELEM:tag", by simp, hc⟩, hcode, hparam⟩
  have hbuild : (b.build none "tags" ["SLICE", "REQ", "ELEM:tag"]).toOption.map (fun v =>
      (v.path, v.rule.chain.length)) = some (path, 1) := by decide +kernel
  have hrun : (b.rule "tag" ["STR", "HARDTRIM", "LEN:1-2:LONG"]).toOption.map (fun w =>
      ((w.validateElement long path 0).1, (w.validateElement long path 1).1,
        (w.validateElement mixed path 0).1, (w.validateElement mixed path 1).1)) =
      some (.ok (.present ∅), .ok (.present (Codes.ofList ["LONG"])), .ok (.present ∅),
        .error (.wrongKind "tags.1" .string (.scalar .int))) := by decide +kernel
  obtain ⟨v, hv, hv'⟩ := exists_of_toOption_map hbuild
  obtain ⟨w, hw, hw'⟩ := exists_of_toOption_map hrun
  obtain ⟨hpath, hone⟩ := Prod.mk.inj hv'
  simp only [Prod.mk.injEq] at hw'
  obtain ⟨shared, hshared, _, hall⟩ := validate_elements hv href hone
  obtain rfl : ["STR", "HARDTRIM", "LEN:1-2:LONG"] = shared := Option.some.inj hshared
  refine ⟨href, v, w, hv, hone, hw, ?_, ?_⟩
  · obtain ⟨_, hok, _⟩ := hall "tag" w hw { subject := long } path _ hpath rfl
    refine hok (fun i => .present (Codes.ofList (if i = 0 then [] else ["LONG"]))) fun i hi => ?_
    obtain rfl | rfl : i = 0 ∨ i = 1 := by simp at hi; omega
    · exact hw'.1
    · exact hw'.2.1
  · obtain ⟨_, _, herror⟩ :=
      hall "tag" w hw { subject := mixed } path _ hpath rfl
    refine herror 1 (by simp) _ hw'.2.2.2 fun j hj => ?_
    obtain rfl : j = 0 := by omega
    exact ⟨_, hw'.2.2.1⟩

end FieldRules

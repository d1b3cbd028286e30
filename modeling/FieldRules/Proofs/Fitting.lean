import FieldRules.Proofs.Chains
import FieldRules.Proofs.Effects
import FieldRules.Proofs.Elements

/-! Subjects that rules fit: where every value that is looked at has the shape it should have, a check
comes to a verdict. Whatever the subject, a trimmed string is stored in the place of a string. -/
namespace FieldRules

namespace Value.TrimsTo
variable {v w : Value}

theorem shape (h : v.TrimsTo w) : w.shape = v.shape := by cases h <;> rfl

theorem elementCount (h : v.TrimsTo w) : w.elementCount = v.elementCount := by
  cases h with
  | list h => exact h.length_eq.symm
  | _ => rfl

theorem string? (h : v.TrimsTo w) : w.string?.isSome = v.string?.isSome := by cases h <;> rfl

/-- What is resolved in a subject is resolved in every trimming of it. -/
theorem resolve (h : v.TrimsTo w) {p : FieldPath} {found : Option Value}
    (hv : v.resolve p = .ok found) :
    ∃ found', w.resolve p = .ok found' ∧ Option.Rel TrimsTo found found' := by
  have hw := h.walk p.segments
  rw [Value.walk_of_resolve hv] at hw
  rw [Value.resolve]
  generalize w.walk p.segments = a at hw
  cases hw with
  | ok hab => exact ⟨_, rfl, hab⟩

end Value.TrimsTo

theorem Kind.accepts_iff {k : Kind} {v : Value} :
    k.accepts v = true ↔ v.shape = k.shape ∨ k = .float ∧ ∃ i, v = .scalar (.int i) := by
  cases v with
  | scalar s => cases s <;> cases k <;> simp [accepts, shape, Value.shape, Scalar.type]
  | _ => simp [accepts]

/-- The rule was made for a value like the one at the path: nothing is there, or a value of its kind
or an integer where it asks for floats, with elements that the rules for them were made for. -/
inductive Rule.Fits (subject : Value) : Rule → FieldPath → Prop
  | unset {r : Rule} {path : FieldPath} (h : subject.resolve path = .ok none) : Fits subject r path
  | present {r : Rule} {path : FieldPath} {v : Value} (h : subject.resolve path = .ok (some v))
      (hk : v.shape = r.kind.shape ∨ r.kind = .float ∧ ∃ i, v = .scalar (.int i))
      (he : ∀ e, .elements e ∈ r.chain → ∀ i < v.elementCount, Fits subject e (path.element i)) :
      Fits subject r path

namespace Rule

/-- A rule fits a subject as well when strings in it have been trimmed. -/
theorem Fits.trims {r : Rule} {u w : Value} {path : FieldPath} (h : r.Fits u path)
    (ht : u.TrimsTo w) : r.Fits w path := by
  induction h with
  | unset h =>
    obtain ⟨found, hw, hrel⟩ := ht.resolve h
    cases hrel
    exact .unset hw
  | present h hk _ ih =>
    obtain ⟨found, hw, hrel⟩ := ht.resolve h
    cases hrel with
    | some hv =>
      refine .present hw ?_ fun e he i hi => ih e he i (hv.elementCount ▸ hi)
      rw [hv.shape]
      refine hk.imp id fun ⟨hfloat, i, hi⟩ => ⟨hfloat, i, ?_⟩
      subst hi
      cases hv
      rfl

end Rule

/-- Elements that come to a verdict in every trimming of the subject do so one after the other. -/
theorem exists_checkEach_eq_ok {rule : Rule} {field path : FieldPath} {is : List Nat}
    {subject : Value} (hok : ∀ i ∈ is, ∀ c : Context, subject.TrimsTo c.subject →
      ∃ verdict, (rule.check field (c.withOverride (path.element i))).1 = .ok verdict)
    (c : Context) (hc : subject.TrimsTo c.subject) (codes : Codes) :
    ∃ codes', (checkEach (fun i c => c.inScope (path.element i) fun c => rule.check field c)
      is c codes).1 = .ok codes' := by
  induction is generalizing c codes with
  | nil => exact ⟨codes, rfl⟩
  | cons i is ih =>
    obtain ⟨verdict, hv⟩ := hok i (by simp) c hc
    have ht := (rule.check_effect field (c.withOverride (path.element i))).1
    rw [checkEach, Context.inScope]
    cases hi : rule.check field (c.withOverride (path.element i)) with
    | mk result c' =>
      rw [hi] at hv ht
      subst hv
      exact ih (fun j hj => hok j (by simp [hj])) { c' with override := c.override } (hc.trans ht) _

theorem Passes.elementCount {field path : FieldPath} {steps : List Step} {p q : Progress}
    (h : Passes field path steps p q) : q.seen.elementCount = p.seen.elementCount := by
  rcases h.seen with hs | hs
  · rw [hs]
  · rw [hs, (Value.TrimsTo.trimmed p.seen).elementCount]

theorem exists_of_anySet_eq_error {subject : Value} {others : List FieldPath} {e : PathError}
    (h : subject.anySet others = .error e) : ∃ p ∈ others, subject.resolve p = .error e := by
  induction others with
  | nil => simp [Value.anySet] at h
  | cons p ps ih =>
    rw [Value.anySet] at h
    have hrest : subject.anySet ps = .error e → ∃ q ∈ p :: ps, subject.resolve q = .error e := by
      intro hs
      obtain ⟨q, hq, hqe⟩ := ih hs
      exact ⟨q, by simp [hq], hqe⟩
    split at h
    · rename_i e' he
      obtain rfl := Except.error.inj h
      exact ⟨p, by simp, he⟩
    · exact hrest h
    · split at h
      · exact hrest h
      · simp at h

/-- A rule comes to a verdict on what it fits, by induction on the rule: of its steps only exclusions
and the checks of elements can fail, and they find what they would have found in the beginning. -/
theorem Rule.exists_check_eq_ok (r : Rule) (field : FieldPath) (c : Context)
    (hfits : r.Fits c.subject (c.override.getD field))
    (hothers : ∀ others code, r.Has (.exclusive others code) →
      ∀ p ∈ others, ∃ found, c.subject.resolve p = .ok found) :
    ∃ verdict, (r.check field c).1 = .ok verdict := by
  induction r using Rule.nested_induction generalizing c with
  | rule r ih =>
    generalize hpath : c.override.getD field = path at hfits
    cases hfits with
    | unset h => exact ⟨_, by rw [check_of_none (by rwa [hpath])]⟩
    | @present _ _ v h hk he =>
      rw [check_of_some (by rwa [hpath]), if_neg (by simp [Kind.accepts_iff.2 hk]), hpath]
      by_cases hu : v.isUnset = true
      · rw [if_pos hu]
        exact ⟨_, rfl⟩
      · rw [if_neg hu]
        cases course field path r.chain ⟨c, v, ∅⟩ with
        | passes hp => exact ⟨_, by rw [hp.checkChain_eq]; rfl⟩
        | stops hsteps hp hs => exact ⟨_, by rw [hsteps, hp.checkChain_of_stops hs]; rfl⟩
        | @fails before after s q e c' hsteps hp hs =>
          exfalso
          have htrims := hp.trimsTo (Value.walk_of_resolve h)
          have hmem : s ∈ r.chain := by simp [hsteps]
          rcases Step.of_take_fails hs with ⟨others, code, e', rfl, hany⟩ | ⟨rule, rfl, heach⟩
          · rw [Value.anySet_eq, htrims.standing, ← Value.anySet_eq] at hany
            obtain ⟨p, hp, herror⟩ := exists_of_anySet_eq_error hany
            obtain ⟨found, hfound⟩ := hothers others code (.here hmem) p hp
            simp [hfound] at herror
          · have hok : ∀ i ∈ List.range q.seen.elementCount, ∀ c' : Context,
                c.subject.TrimsTo c'.subject → ∃ verdict,
                  (rule.check field (c'.withOverride (path.element i))).1 = .ok verdict := by
              intro i hi c' ht
              rw [List.mem_range, hp.elementCount] at hi
              refine ih rule hmem _ ((he rule hmem i hi).trims ht) fun others code hhas p hp => ?_
              obtain ⟨found, hfound⟩ := hothers others code (.inside hmem hhas) p hp
              obtain ⟨found', hfound', _⟩ := ht.resolve hfound
              exact ⟨found', hfound'⟩
            obtain ⟨codes, hcodes⟩ := exists_checkEach_eq_ok hok q.context htrims q.codes
            simp [heach] at hcodes

/-- The check gets to a step of the rule's own chain. -/
inductive Rule.Takes (field : FieldPath) (r : Rule) (c : Context) (s : Step) (p : Progress) : Prop
  | intro {v : Value} {before after : List Step}
      (found : c.subject.resolve (c.override.getD field) = .ok (some v))
      (kind : r.kind.accepts v = true) (set : v.isUnset = false)
      (chain : r.chain = before ++ s :: after)
      (passes : Passes field (c.override.getD field) before ⟨c, v, ∅⟩ p)

/-- The check executes a step at a path, of the rule's own chain or of a rule for elements within,
whether or not it comes to a verdict afterwards. -/
inductive Rule.Executes (field : FieldPath) : Rule → Context → FieldPath → Step → Progress → Prop
  | own {r : Rule} {c : Context} {s : Step} {p : Progress} (h : r.Takes field c s p) :
      Executes field r c (c.override.getD field) s p
  | element {r e : Rule} {c c' : Context} {path path' : FieldPath} {p q : Progress} {i : Nat}
      {codes : Codes} {s : Step} (h : Executes field r c path (.elements e) p)
      (hi : i < p.seen.elementCount)
      (hbefore : checkEach (fun i c => c.inScope (path.element i) fun c => e.check field c)
        (List.range i) p.context p.codes = (.ok codes, c'))
      (h' : Executes field e (c'.withOverride (path.element i)) path' s q) :
      Executes field r c path' s q

theorem Rule.Takes.mem_chain {field : FieldPath} {r : Rule} {c : Context} {s : Step} {p : Progress}
    (h : r.Takes field c s p) : s ∈ r.chain := by
  obtain ⟨_, _, _, hchain, _⟩ := h
  simp [hchain]

theorem checkEach_keeps {check : Nat → Context → Checked Verdict} {n : Nat} {c : Context}
    {codes : Codes} (h : ∀ i < n, ∀ codes', checkEach check (List.range i) c codes = (.ok codes', c) →
      (check i c).2 = c) : (checkEach check (List.range n) c codes).2 = c := by
  induction n with
  | zero => rfl
  | succ n ih =>
    have hc := ih fun i hi => h i (by omega)
    rw [List.range_succ, checkEach_append]
    cases hn : checkEach check (List.range n) c codes with
    | mk result c' =>
      obtain rfl : c' = c := by rwa [hn] at hc
      cases result with
      | error e => rfl
      | ok codes' =>
        have hlast := h n (by omega) codes' hn
        simp only [checkEach]
        cases hcheck : check n c' with
        | mk result c₁ =>
          rw [hcheck] at hlast
          cases result <;> exact hlast

/-- A check that executes no store leaves the context as it was. -/
theorem Rule.check_keeps (r : Rule) (field : FieldPath) (c : Context)
    (h : ∀ path p, ¬ r.Executes field c path (.trim true) p) : (r.check field c).2 = c := by
  induction r using Rule.nested_induction generalizing c with
  | rule r ih =>
    cases hv : c.subject.resolve (c.override.getD field) with
    | error e => rw [check_of_error hv]
    | ok o =>
      cases o with
      | none => rw [check_of_none hv]
      | some v =>
        rw [check_of_some hv]
        split
        · rfl
        · split
          · rfl
          · rename_i hk hu
            refine checkChain_keeps fun before s after q hsteps hp _ => ?_
            have htakes : r.Takes field c s q :=
              .intro hv (by simpa using hk) (by simpa using hu) hsteps hp
            refine Step.keeps_of_take (fun hs => h _ q (.own (hs ▸ htakes))) fun e hs => ?_
            subst hs
            refine checkEach_keeps fun i hi codes hbefore => ?_
            have he := ih e htakes.mem_chain (q.context.withOverride _) fun path p hp =>
              h path p (.element (.own htakes) hi hbefore hp)
            change { (e.check field (q.context.withOverride _)).2 with
              override := q.context.override } = q.context
            rw [he]
            rfl

theorem Kind.isSome_string?_of_accepts {v : Value} (h : Kind.accepts .string v = true)
    (hv : v.isUnset = false) : v.string?.isSome = true := by
  rcases Kind.accepts_iff.1 h with h | ⟨h, _⟩
  · cases v with
    | scalar s => cases s <;> first | rfl | simp [Value.shape, Scalar.type, shape] at h
    | nilable s => cases s <;> first | rfl | simp [Value.shape, Scalar.type, shape] at h
    | unset => simp [Value.isUnset] at hv
    | _ => simp [Value.shape, shape] at h
  · simp at h

theorem Value.TrimsTo.trimmed_of_string {v w : Value} (h : v.TrimsTo w)
    (hv : v.string?.isSome = true) : w.TrimsTo v.trimmed := by
  cases h with
  | same => exact .trimmed v
  | string => exact .same _
  | nilable => exact .same _
  | list => simp [Value.string?, Value.scalar?] at hv
  | object => simp [Value.string?, Value.scalar?] at hv

/-- Where a string is to be stored trimmed there stands a string, and it is replaced by a trimming of
itself. -/
theorem Rule.Takes.exists_slot {field : FieldPath} {r : Rule} {c : Context} {store : Bool}
    {p : Progress} (h : r.Takes field c (.trim store) p) (hkind : r.kind = .string) :
    ∃ slot subject', p.context.subject.resolve (c.override.getD field) = .ok (some slot) ∧
      slot.string?.isSome = true ∧ slot.TrimsTo p.seen.trimmed ∧
      p.context.subject.replace (c.override.getD field) p.seen.trimmed = .ok (some subject') := by
  obtain @⟨v, before, after, found, hk, hset, _, hp⟩ := h
  have hwalk := Value.walk_of_resolve found
  obtain ⟨x, hx, hcontext⟩ := hp.exists_stored hwalk
  have hslot : p.context.subject.walk (c.override.getD field).segments = .ok (some x) := by
    rw [hcontext]
    exact (Context.Shows.store ⟨rfl, hwalk⟩ (.same v) hx).walk
  have hstring : v.string?.isSome = true := Kind.isSome_string?_of_accepts (hkind ▸ hk) hset
  have hseen : p.seen.trimmed = v.trimmed := by
    rcases hp.seen with hs | hs
    · rw [hs]
    · rw [hs, Value.trimmed_trimmed]
  refine ⟨x, p.context.subject.put (c.override.getD field).segments p.seen.trimmed, ?_, ?_, ?_, ?_⟩
  · rw [Value.resolve, hslot]
    rfl
  · rw [hx.string?, hstring]
  · rw [hseen]
    exact hx.trimmed_of_string hstring
  · rw [Value.replace, Value.overwrite_eq, hslot]
    rfl

namespace Builder
variable {b : Builder} {texts : List String} {r : Rule}

/-- Whatever is executed stands in a rule that was made from clauses. -/
theorem Makes.exists_takes (hm : b.Makes texts r) {field path : FieldPath} {c : Context} {s : Step}
    {p : Progress} (h : r.Executes field c path s p) :
    ∃ e clauses c', b.Makes clauses e ∧ path = c'.override.getD field ∧ e.Takes field c' s p := by
  induction h generalizing texts with
  | own h => exact ⟨_, texts, _, hm, rfl, h⟩
  | element _ _ _ _ ih ih' =>
    obtain ⟨e, clauses, c', he, _, ht⟩ := ih hm
    obtain ⟨_, shared, _, _, hs⟩ := he.exists_shared ht.mem_chain
    exact ih' hs

theorem Makes.kind_of_trim (hm : b.Makes texts r) {store : Bool} (h : .trim store ∈ r.chain) :
    r.kind = .string := by
  obtain ⟨field, kind?, hr⟩ := hm
  obtain ⟨clauses, kind, parts, hc, _, hp, rfl⟩ := of_compile_eq_ok hr
  obtain ⟨c, _, hr⟩ := exists_reads_of_mem hc hp (Rule.mem_chain_ofParts.1 h)
  cases hr with
  | trim _ hk => exact hk
  | storeTrimmed _ hk => exact hk

end Builder

/-- A check fails only if a value has not the shape that it should have: where the rule fits the
subject and whatever exclusions name can be looked up, it comes to a verdict. And in every check, also
in one that fails, a string that is stored trimmed goes to the place of a string, bare or in a
nilable. -/
theorem validate_fits {b : Builder} {kind? : Option Kind} {field : String} {texts : List String}
    {v : Validator} (h : b.build kind? field texts = .ok v) (c : Context) :
    (v.rule.Fits c.subject (c.override.getD v.path) →
      (∀ others code, v.rule.Has (.exclusive others code) →
        ∀ p ∈ others, ∃ found, c.subject.resolve p = .ok found) →
      ∃ verdict, (v.validate c).1 = .ok verdict) ∧
    ∀ path p, v.rule.Executes v.path c path (.trim true) p →
      ∃ slot subject', p.context.subject.resolve path = .ok (some slot) ∧
        slot.string?.isSome = true ∧ slot.TrimsTo p.seen.trimmed ∧
        p.context.subject.replace path p.seen.trimmed = .ok (some subject') := by
  refine ⟨fun hfits hothers => v.rule.exists_check_eq_ok v.path c hfits hothers, ?_⟩
  intro path p hp
  obtain ⟨e, clauses, c', hm, rfl, ht⟩ := (Builder.makes_of_build h).exists_takes hp
  exact ht.exists_slot (hm.kind_of_trim ht.mem_chain)

/-- A list of a string, a nilable and null fits a rule whose elements exclude a field that is not set,
and the check stores its first element trimmed. -/
theorem nilable_tags_fit :
    let b : Builder := { shared := [("tag", ["STR", "MEX:alias:BOTH", "HARDTRIM"])] }
    let c : Context := { subject := .object [("tags",
      .list [.scalar (.string " a"), .nilable (.string "b "), .null])] }
    ∃ v, b.build none "tags" ["SLICE", "ELEM:tag"] = .ok v ∧
      v.rule.Fits c.subject (c.override.getD v.path) ∧
      (∃ verdict, (v.validate c).1 = .ok verdict) ∧
      ∃ path p slot subject', v.rule.Executes v.path c path (.trim true) p ∧ path.text = "tags.0" ∧
        p.context.subject.resolve path = .ok (some slot) ∧ slot.string?.isSome = true ∧
        slot.TrimsTo p.seen.trimmed ∧
        p.context.subject.replace path p.seen.trimmed = .ok (some subject') := by
  intro b c
  let codeOf := b.config.defaultCodes.ofKind
  let tag := Rule.ofParts .string (codeOf .string)
    [.declaration, .step (.exclusive [⟨["alias"], by simp⟩] "BOTH"), .step (.trim true)]
  let tags := Rule.ofParts .list (codeOf .list) [.declaration, .step (.elements tag)]
  have htag : b.sharedRule "tags" b.shared "tag" = .ok tag := by
    rw [Builder.sharedRule]
    rfl
  have htags : b.compile (b.sharedRule "tags" b.shared) "tags" none ["SLICE", "ELEM:tag"] =
      .ok tags := by
    simp only [Builder.compile, bind_eq_ok_iff, pure_eq_ok_iff]
    refine ⟨[⟨"SLICE", [], "SLICE"⟩, ⟨"ELEM", ["tag"], "ELEM:tag"⟩], by rfl, .list, by rfl,
      [.declaration, .step (.elements tag)], mapM_eq_ok_iff.2 (.cons (by rfl) (.cons ?_ .nil)), rfl⟩
    change (do return Part.step (.elements (← b.sharedRule "tags" b.shared "tag"))) = _
    rw [htag]
    rfl
  let v : Validator := ⟨⟨["tags"], by simp⟩, tags⟩
  have hv : b.build none "tags" ["SLICE", "ELEM:tag"] = .ok v :=
    Builder.build_of_compile (by rfl) htags
  have hchain : v.rule.chain = [.elements tag] := rfl
  have helement : tag.chain = [.exclusive [⟨["alias"], by simp⟩] "BOTH", .trim true] := rfl
  have hstring : ∀ path x, c.subject.resolve path = .ok (some x) → x.shape = .scalar .string →
      tag.Fits c.subject path := fun path x hx hs => .present hx (.inl hs) (by simp [helement])
  have hfits : v.rule.Fits c.subject v.path := by
    refine .present rfl (.inl rfl) fun e he i hi => ?_
    obtain rfl : e = tag := by simpa [hchain] using he
    obtain rfl | rfl | rfl : i = 0 ∨ i = 1 ∨ i = 2 := by simp [Value.elementCount] at hi; omega
    · exact hstring _ _ rfl rfl
    · exact hstring _ _ rfl rfl
    · exact .unset rfl
  have hothers : ∀ others code, v.rule.Has (.exclusive others code) →
      ∀ p ∈ others, ∃ found, c.subject.resolve p = .ok found := by
    intro others code hhas p hp
    have hin : tag.Has (.exclusive others code) := by
      cases hhas with
      | here h => simp [hchain] at h
      | inside he h =>
        obtain rfl : _ = tag := by simpa [hchain] using he
        exact h
    cases hin with
    | here h =>
      obtain ⟨rfl, rfl⟩ := by simpa [helement] using h
      obtain rfl := List.mem_singleton.1 hp
      exact ⟨none, rfl⟩
    | inside he => simp [helement] at he
  have hlist : v.rule.Takes v.path c (.elements tag) ⟨c, _, ∅⟩ :=
    .intro rfl rfl rfl (hchain.trans (List.nil_append _).symm) (.nil _)
  have hfirst : tag.Takes v.path (c.withOverride (v.path.element 0)) (.trim true)
      ⟨c.withOverride (v.path.element 0), .scalar (.string " a"), ∅⟩ :=
    .intro rfl rfl rfl helement (.cons rfl (.nil _))
  have hexecutes := Rule.Executes.element (.own hlist) (i := 0) (by decide) rfl (.own hfirst)
  obtain ⟨hok, hslots⟩ := validate_fits hv c
  obtain ⟨slot, subject', hslot⟩ := hslots _ _ hexecutes
  exact ⟨v, hv, hfits, hok hfits hothers, _, _, slot, subject', hexecutes, rfl, hslot⟩

end FieldRules

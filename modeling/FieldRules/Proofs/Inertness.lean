import FieldRules.Proofs.DotPrefix
import FieldRules.Proofs.Likeness
import FieldRules.Proofs.Runs
import Mathlib.Data.List.Infix

/-! Entries of objects that no rule names. What stands there, and whether anything does, makes no
difference to a rule set, and stays there. -/
namespace FieldRules

namespace Entries
variable {α : Type} {es fs : Entries α} {key other : String}

/-- Entries that are the same without one of them have the same others. -/
theorem get?_congr_of_without (h : without key es = without key fs) (hne : key ≠ other) :
    get? other es = get? other fs := by
  have hget := congrArg (get? other) h
  rwa [get?_without, get?_without, if_neg hne, if_neg hne] at hget

theorem without_put_of_ne (hne : other ≠ key) (v : α) (es : Entries α) :
    without key (put other v es) = put other v (without key es) := by
  induction es with
  | nil => simp [put, without, hne]
  | cons e es ih =>
    by_cases ho : e.1 = other
    · have hk : e.1 ≠ key := ho ▸ hne
      simp [put, without_cons, ho, hne]
    · by_cases hk : e.1 = key
      · rw [put, if_neg ho, without_cons, if_pos hk, without_cons, if_pos hk, ih]
      · rw [put, if_neg ho, without_cons, if_neg hk, without_cons, if_neg hk, put, if_neg ho, ih]

theorem mem_of_get? {v : α} (h : get? key es = some v) : (key, v) ∈ es := by
  induction es with
  | nil => simp [get?] at h
  | cons e es ih =>
    rw [get?] at h
    split at h
    · rename_i hk
      simp [← hk, ← Option.some.inj h]
    · exact List.mem_cons_of_mem e (ih h)

end Entries

namespace Value

/-- Two values that differ in one entry only, at the end of the keys: one has `a` there and the other
has `b`. -/
inductive DifferAt (a b : Option Value) : List String → Value → Value → Prop
  | entry {key : String} {es fs : Entries Value} (h : es.without key = fs.without key)
      (ha : es.get? key = a) (hb : fs.get? key = b) : DifferAt a b [key] (.object es) (.object fs)
  | inside {key : String} {keys : List String} {es : Entries Value} {v w : Value}
      (hv : es.get? key = some v) (h : DifferAt a b keys v w) :
      DifferAt a b (key :: keys) (.object es) (.object (es.put key w))

theorem DifferAt.exists_entries {a b : Option Value} {keys : List String} {v w : Value}
    (h : DifferAt a b keys v w) : ∃ es fs, v = .object es ∧ w = .object fs := by
  cases h with
  | entry => exact ⟨_, _, rfl, rfl⟩
  | inside => exact ⟨_, _, rfl, rfl⟩

/-- At the place, values are the same where it is not on the way to the entry, and differ in the rest
of the keys where it is. -/
def ApartFrom (a b : Option Value) (keys p : List String) (v w : Value) : Prop :=
  (∃ rest, keys = p ++ rest ∧ DifferAt a b rest v w) ∨ ¬ p <+: keys ∧ v = w

section
variable {a b : Option Value} {keys p rest : List String} {v w x y : Value} {s : String}

theorem apartFrom_append_iff (h : keys = p ++ rest) :
    ApartFrom a b keys (p ++ [s]) v w ↔ ApartFrom a b rest [s] v w := by
  subst h
  simp only [ApartFrom, List.prefix_append_right_inj, List.append_assoc, List.append_cancel_left_eq]

/-- Children of values that differ below the keys, other than what stands in the entry itself. -/
theorem DifferAt.child? (h : DifferAt a b keys v w) (hs : keys ≠ [s]) :
    Corresponds (ApartFrom a b keys [s]) (v.child? s) (w.child? s) := by
  cases h with
  | @entry key es fs h =>
    have hne : key ≠ s := fun hk => hs (by rw [hk])
    rw [Value.child?, Value.child?, Entries.get?_congr_of_without h hne]
    exact .refl (fun x => .inr ⟨by simpa using hne.symm, rfl⟩) _
  | @inside key rest es v' w' hv h =>
    by_cases hk : key = s
    · subst hk
      rw [Value.child?, Value.child?, hv, Entries.get?_put_self]
      exact .some (.inl ⟨rest, rfl, h⟩)
    · rw [Value.child?, Value.child?, Entries.get?_put_of_ne hk]
      exact .refl (fun x => .inr ⟨by simpa using Ne.symm hk, rfl⟩) _

/-- Values stay apart when their children are written, other than the entry itself. -/
theorem DifferAt.setChild (h : DifferAt a b keys v w) (hs : keys ≠ [s])
    (hv : v.child? s = .ok (some x)) {x' y' : Value} (hxy : ApartFrom a b keys [s] x' y') :
    DifferAt a b keys (v.setChild s x') (w.setChild s y') := by
  cases h with
  | @entry key es fs h ha hb =>
    have hne : s ≠ key := fun hk => hs (by rw [hk])
    rcases hxy with ⟨rest, hrest, _⟩ | ⟨_, rfl⟩
    · exact absurd (List.cons.inj hrest).1.symm hne
    · refine .entry ?_ ?_ ?_
      · rw [Entries.without_put_of_ne hne, Entries.without_put_of_ne hne, h]
      · rw [Entries.get?_put_of_ne hne, ha]
      · rw [Entries.get?_put_of_ne hne, hb]
  | @inside key rest es v' w' hv' h =>
    have hget : es.get? s = some x := Except.ok.inj hv
    rcases hxy with ⟨rest', hrest, hxy⟩ | ⟨hn, rfl⟩
    · obtain ⟨rfl, rfl⟩ := List.cons.inj hrest
      have hput := DifferAt.inside (Entries.get?_put_self key x' es) hxy
      rw [Entries.put_put_self] at hput
      rw [Value.setChild, Value.setChild, Entries.put_put_self]
      exact hput
    · have hne : s ≠ key := fun hk => hn (by simp [hk])
      have hkey : (es.put s x').get? key = some v' := by rw [Entries.get?_put_of_ne hne, hv']
      have hput := DifferAt.inside hkey h
      rw [Entries.put_comm hne x' w' (by simp [hget]) (by simp [hv'])] at hput
      exact hput

end

end Value

/-- Subjects that differ in one entry are alike at all other places. Only the entry and what stands
below it may not be looked at. -/
def Likeness.apartFrom (a b : Option Value) (keys : List String) : Likeness where
  At := Value.ApartFrom a b keys
  Open p := ¬ keys <+: p
  Excuses _ _ := False
  open_of_append h hp := h (hp.trans (List.prefix_append _ _))
  looksLike := by
    rintro p v w (⟨rest, _, h⟩ | ⟨_, rfl⟩)
    · obtain ⟨es, fs, rfl, rfl⟩ := h.exists_entries
      exact Value.looksLike_object es fs
    · exact .refl v
  trimmed := by
    rintro p v w (⟨rest, hp, h⟩ | ⟨hp, rfl⟩)
    · obtain ⟨es, fs, rfl, rfl⟩ := h.exists_entries
      exact .inl ⟨rest, hp, h⟩
    · exact .inr ⟨hp, rfl⟩
  child? := by
    rintro p v w s (⟨rest, hp, h⟩ | ⟨hp, rfl⟩) ho
    · have hs : rest ≠ [s] := by
        rintro rfl
        exact ho (hp ▸ List.prefix_rfl)
      exact (h.child? hs).imp fun x y => (Value.apartFrom_append_iff hp).2
    · exact .refl (fun x => .inr ⟨fun h => hp ((List.prefix_append _ _).trans h), rfl⟩) _
  setChild := by
    rintro p v w x y x' y' s (⟨rest, hp, h⟩ | ⟨hp, rfl⟩) ho hv hw hxy
    · have hs : rest ≠ [s] := by
        rintro rfl
        exact ho (hp ▸ List.prefix_rfl)
      exact .inl ⟨rest, hp, h.setChild hs hv ((Value.apartFrom_append_iff hp).1 hxy)⟩
    · rcases hxy with ⟨rest, hkeys, _⟩ | ⟨_, rfl⟩
      · exact absurd ⟨[s] ++ rest, by rw [hkeys, List.append_assoc]⟩ hp
      · exact .inr ⟨hp, rfl⟩
  element := by
    rintro p v w i (⟨rest, _, h⟩ | ⟨hp, _⟩) ho hi
    · obtain ⟨es, fs, rfl, rfl⟩ := h.exists_entries
      simp [Value.elementCount] at hi
    · intro hkeys
      rcases List.prefix_concat_iff.1 hkeys with h | h
      · exact hp (h ▸ List.prefix_append _ _)
      · exact ho h
  accepts := by
    rintro p v w k (⟨rest, _, h⟩ | ⟨_, rfl⟩)
    · obtain ⟨es, fs, rfl, rfl⟩ := h.exists_entries
      exact .inl rfl
    · exact .inl rfl

/-- The field is one of those that the clauses, or the clauses of a shared rule that they reach,
exclude. -/
def Builder.Excludes (b : Builder) (texts : List String) (q : FieldPath) : Prop :=
  ∃ c others, b.InReach texts c ∧ c.code = Operation.exclusive.code ∧
    Scope.others c = .ok others ∧ q ∈ others

theorem Builder.Makes.excludes {b : Builder} {texts : List String} {r : Rule} (h : b.Makes texts r)
    {others : List FieldPath} {code : String} (hs : r.Has (.exclusive others code)) {q : FieldPath}
    (hq : q ∈ others) : b.Excludes texts q := by
  obtain ⟨c, sc, hc, hr⟩ := h.exists_inReach hs
  cases hr with
  | exclusive hcode hothers => exact ⟨c, others, hc, hcode, hothers, hq⟩

/-- The fields that a clause excludes, whichever field it is read for. -/
def Clause.excluded (text : String) : List FieldPath :=
  (((Clause.parse "" text).toOption.filter (·.code = Operation.exclusive.code)).bind
    fun c => (Scope.others c).toOption).getD []

theorem Clause.mem_excluded {field text : String} {c : Clause} (hp : Clause.parse field text = .ok c)
    (hc : c.code = Operation.exclusive.code) {others : List FieldPath}
    (ho : Scope.others c = .ok others) : Clause.excluded text = others := by
  rw [excluded, toOption_parse "" field, hp]
  simp [Except.toOption, Option.filter, hc, ho]

/-- What is excluded can be read off the clauses and all shared rules. -/
theorem Builder.Excludes.mem_excluded {b : Builder} {texts : List String} {q : FieldPath}
    (h : b.Excludes texts q) :
    q ∈ (texts ++ b.shared.flatMap Prod.snd).flatMap Clause.excluded := by
  obtain ⟨c, others, hc, hcode, hothers, hq⟩ := h
  obtain ⟨field, text, ht, hp⟩ : c.IsIn (texts ++ b.shared.flatMap Prod.snd) := by
    rcases hc with ⟨field, text, ht, hp⟩ | ⟨name, shared, _, hs, field, text, ht, hp⟩
    · exact ⟨field, text, List.mem_append_left _ ht, hp⟩
    · have hmem : text ∈ b.shared.flatMap Prod.snd :=
        List.mem_flatMap.2 ⟨_, Entries.mem_of_get? hs, ht⟩
      exact ⟨field, text, List.mem_append_right _ hmem, hp⟩
  refine List.mem_flatMap.2 ⟨text, ht, ?_⟩
  rw [Clause.mem_excluded hp hcode hothers]
  exact hq

/-- An entry that no field and no exclusion of a rule set lies in makes no difference: whether it is
there or not, and whatever it is, the rule set comes to the same outcome or the same failure, and the
entry is left as it was. -/
theorem RuleSet.validate_inert {rs : RuleSet} {keys : List String}
    (hrs : ∀ v ∈ rs.validators, ∃ (b : Builder) (kind? : Option Kind) (field : String)
      (texts : List String), b.build kind? field texts = .ok v ∧ ¬ keys <+: v.path.segments ∧
        ∀ q, b.Excludes texts q → ¬ keys <+: q.segments)
    {a b : Option Value} {s t : Value} (h : s.DifferAt a b keys t) :
    (rs.validate t).1 = (rs.validate s).1 ∧
      (rs.validate s).2.DifferAt a b keys (rs.validate t).2 := by
  have hvs : ∀ v ∈ rs.validators, (Likeness.apartFrom a b keys).Respects v.rule ∧
      (Likeness.apartFrom a b keys).Open v.path.segments := by
    intro v hv
    obtain ⟨builder, kind?, field, texts, hb, hpath, hothers⟩ := hrs v hv
    exact ⟨Likeness.respects fun others code hs q hq =>
      hothers q ((Builder.makes_of_build hb).excludes hs hq), hpath⟩
  have hlike : (Likeness.apartFrom a b keys).Like { subject := s } { subject := t } :=
    ⟨.inl ⟨keys, rfl, h⟩, rfl⟩
  have hagree := Likeness.evaluate rs.config hvs [] {} hlike rfl
  rw [RuleSet.validate, RuleSet.validate]
  generalize rs.config.evaluate rs.validators [] {} { subject := s } = x at hagree
  generalize rs.config.evaluate rs.validators [] {} { subject := t } = y at hagree
  cases hagree with
  | same h =>
    rcases h.subject with ⟨rest, rfl, h⟩ | ⟨hn, _⟩
    · exact ⟨rfl, h⟩
    · exact absurd List.nil_prefix hn
  | excused h => exact h.elim

/-- A note beside the tags of a user is neither looked at nor lost, though a tag excludes the nick
beside it. -/
theorem user_note_inert :
    let b : Builder := { shared := [("tag", ["STR", "HARDTRIM", "MEX:user.nick:BOTH"])] }
    let vs := b.validators [("user.tags", ["SLICE", "ELEM:tag"]), ("user", ["OBJ"])]
    let user : Entries Value :=
      [("tags", .list [.scalar (.string " a")]), ("nick", .scalar (.string "x"))]
    let s : Value := .object [("user", .object (("note", .scalar (.int 1)) :: user))]
    let t : Value := .object [("user", .object user)]
    s.DifferAt (some (.scalar (.int 1))) none ["user", "note"] t ∧
    ∃ o s' t', RuleSet.validate ⟨vs, {}⟩ s = (.ok o, s') ∧ o.isValid = false ∧
      RuleSet.validate ⟨vs, {}⟩ t = (.ok o, t') ∧
      s'.DifferAt (some (.scalar (.int 1))) none ["user", "note"] t' := by
  intro b vs user s t
  have hst : s.DifferAt (some (.scalar (.int 1))) none ["user", "note"] t :=
    .inside rfl (.entry rfl rfl rfl)
  have hpaths : ∀ v ∈ vs, ¬ ["user", "note"] <+: v.path.segments := by decide +kernel
  have hexcluded : ∀ texts ∈ [["SLICE", "ELEM:tag"], ["OBJ"]],
      ∀ q ∈ (texts ++ b.shared.flatMap Prod.snd).flatMap Clause.excluded,
        ¬ ["user", "note"] <+: q.segments := by decide +kernel
  have hvs : ∀ v ∈ vs, ∃ (b : Builder) (kind? : Option Kind) (field : String)
      (texts : List String), b.build kind? field texts = .ok v ∧
        ¬ ["user", "note"] <+: v.path.segments ∧
        ∀ q, b.Excludes texts q → ¬ ["user", "note"] <+: q.segments := by
    intro v hv
    obtain ⟨l, hl, hbuilt⟩ := List.mem_filterMap.1 hv
    refine ⟨b, none, l.1, l.2, toOption_eq_some_iff.1 hbuilt, hpaths v hv, fun q hq => ?_⟩
    exact hexcluded l.2 (List.mem_map_of_mem hl) q hq.mem_excluded
  obtain ⟨hsame, hapart⟩ := @RuleSet.validate_inert ⟨vs, {}⟩ _ hvs _ _ _ _ hst
  obtain ⟨o, s', ho, hvalid⟩ := RuleSet.exists_outcome ⟨vs, {}⟩ s Outcome.isValid false
    (by decide +kernel)
  rw [ho] at hsame hapart
  exact ⟨hst, o, s', (RuleSet.validate ⟨vs, {}⟩ t).2, ho, hvalid, Prod.ext hsame rfl, hapart⟩

end FieldRules

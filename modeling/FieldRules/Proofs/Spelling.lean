import FieldRules.Proofs.DeclarationOrder
import FieldRules.Proofs.Places

/-! Paths to one node. They differ in nothing but how the indexes of lists are spelled. The fields
of a rule set are told apart by their texts, so two of them may still name one node that way. -/
namespace FieldRules

namespace Value

/-- Two ways to a place, segment by segment the same, or where a list stands two numerals of one
index. -/
def SpellAlike (v : Value) (place : List Position) (p q : List String) : Prop :=
  p.length = q.length ∧ ∀ (n : Nat) (s t : String), p[n]? = some s → q[n]? = some t →
    s = t ∨ ∃ items i, v.at? (place.take n) = some (.list items) ∧
      Text.natural? s.toList = some i ∧ Text.natural? t.toList = some i

variable {v w : Value} {s t : String} {i : Position} {p q : List String} {place : List Position}

theorem position?_eq_iff (h : v.position? s = some i) :
    v.position? t = some i ↔ s = t ∨ ∃ items n, v = .list items ∧
      Text.natural? s.toList = some n ∧ Text.natural? t.toList = some n := by
  cases v with
  | object es =>
    obtain rfl : Position.key s = i := by simpa [position?] using h
    simp [position?, eq_comm]
  | list items =>
    obtain ⟨n, hn, rfl⟩ := Option.map_eq_some_iff.1 h
    constructor
    · intro ht
      obtain ⟨m, hm, hmn⟩ := Option.map_eq_some_iff.1 ht
      obtain rfl : m = n := by simpa using hmn
      exact .inr ⟨items, m, rfl, hn, hm⟩
    · rintro (rfl | ⟨_, m, _, hs, ht⟩)
      · exact h
      · obtain rfl : n = m := Option.some.inj (hn.symm.trans hs)
        simp [position?, ht]
  | _ => simp [position?] at h

theorem spellAlike_cons_iff (hw : v.item? i = some w) :
    v.SpellAlike (i :: place) (s :: p) (t :: q) ↔
      (s = t ∨ ∃ items n, v = .list items ∧
        Text.natural? s.toList = some n ∧ Text.natural? t.toList = some n) ∧
      w.SpellAlike place p q := by
  have hat : ∀ n, v.at? ((i :: place).take (n + 1)) = w.at? (place.take n) := fun n => by
    rw [List.take_succ_cons, at?, hw, Option.bind_some]
  constructor
  · rintro ⟨hl, h⟩
    refine ⟨?_, by simpa using hl, fun n a b ha hb => ?_⟩
    · rcases h 0 s t rfl rfl with rfl | ⟨items, n, hv, hs, ht⟩
      · exact .inl rfl
      · exact .inr ⟨items, n, Option.some.inj hv, hs, ht⟩
    · have := h (n + 1) a b ha hb
      rwa [hat] at this
  · rintro ⟨hst, hl, h⟩
    refine ⟨by simpa using hl, fun n a b ha hb => ?_⟩
    cases n with
    | zero =>
      obtain rfl : s = a := Option.some.inj ha
      obtain rfl : t = b := Option.some.inj hb
      rcases hst with rfl | ⟨items, n, hv, hs, ht⟩
      · exact .inl rfl
      · exact .inr ⟨items, n, congrArg some hv, hs, ht⟩
    | succ n =>
      rw [hat]
      exact h n a b ha hb

/-- The ways to a place are the spellings of one of them. -/
theorem place?_eq_some_iff_spellAlike (hp : v.place? p = some place) :
    v.place? q = some place ↔ v.SpellAlike place p q := by
  induction p generalizing v q place with
  | nil =>
    cases hv : v.isNull with
    | true => simp [place?, hv] at hp
    | false =>
      obtain rfl : [] = place := by simpa [place?, hv] using hp
      cases q with
      | nil => simp [hp, SpellAlike]
      | cons t q =>
        constructor
        · intro h
          obtain ⟨_, _, _, _, _, _, h⟩ := place?_cons_eq_some_iff.1 h
          simp at h
        · rintro ⟨hl, _⟩
          simp at hl
  | cons s p ih =>
    obtain ⟨i, w, rest, hi, hw, hrest, rfl⟩ := place?_cons_eq_some_iff.1 hp
    cases q with
    | nil => cases hv : v.isNull <;> simp [place?, hv, SpellAlike]
    | cons t q =>
      rw [spellAlike_cons_iff hw, ← position?_eq_iff hi, ← ih hrest, place?_cons_eq_some_iff]
      constructor
      · rintro ⟨j, u, rest', hj, hu, hq, heq⟩
        obtain ⟨rfl, rfl⟩ := List.cons.inj heq
        obtain rfl : w = u := Option.some.inj (hw.symm.trans hu)
        exact ⟨hj, hq⟩
      · rintro ⟨hj, hq⟩
        exact ⟨i, w, rest, hj, hw, hq, rfl⟩

/-- Indexes that are spelled as usual are spelled in one way. -/
theorem SpellAlike.eq_of_canonical (h : v.SpellAlike place p q)
    (hp : ∀ s ∈ p, ∀ n, Text.natural? s.toList = some n → s = toString n)
    (hq : ∀ s ∈ q, ∀ n, Text.natural? s.toList = some n → s = toString n) : p = q := by
  refine List.ext_getElem h.1 fun n hpn hqn => ?_
  rcases h.2 n p[n] q[n] (List.getElem?_eq_getElem hpn) (List.getElem?_eq_getElem hqn) with
    heq | ⟨_, i, _, hs, ht⟩
  · exact heq
  · rw [hp _ (List.getElem_mem hpn) i hs, hq _ (List.getElem_mem hqn) i ht]

end Value

namespace RuleSet

theorem exists_getElem?_of_map_eq {α β : Type} {f : α → β} {xs : List α} {ys : List β} {y : β}
    (h : xs.map f = ys) (n : Nat) (hn : ys[n]? = some y) : ∃ x, xs[n]? = some x ∧ f x = y := by
  rwa [← h, List.getElem?_map, Option.map_eq_some_iff] at hn

theorem field_ne_of_ofValidatorsBy {cycle? : Graph → Option Nat} {vs : List Validator}
    {config : RuleSetConfig} {rs : RuleSet} (hb : ∀ v ∈ vs, v.IsBuilt)
    (h : ofValidatorsBy cycle? vs config = .ok rs) {m n : Nat} (hmn : m ≠ n) {v w : Validator}
    (hv : rs.validators[m]? = some v) (hw : rs.validators[n]? = some w) : v.field ≠ w.field := by
  obtain ⟨hd, rfl⟩ := of_ofValidatorsBy_eq_ok hb h
  intro heq
  have hm : m < ((inOrder vs).map Validator.field).length := by
    simpa using (List.getElem?_eq_some_iff.1 hv).1
  refine hmn ((List.getElem?_inj hm (inOrder_nodup hd)).1 ?_)
  rw [List.getElem?_map, List.getElem?_map, hv, hw, Option.map_some, Option.map_some, heq]

/-- No two fields of an accepted rule set are the same text. One of them leads to the node of another
one exactly where the two are spelled alike, and so they differ in the spelling of some index. With
indexes spelled as usual no two fields lead to one node. -/
theorem places_eq_iff {cycle? : Graph → Option Nat} {vs : List Validator} {config : RuleSetConfig}
    {rs : RuleSet} (hb : ∀ v ∈ vs, v.IsBuilt) (h : ofValidatorsBy cycle? vs config = .ok rs)
    {m n : Nat} (hmn : m ≠ n) {v w : Validator} (hv : rs.validators[m]? = some v)
    (hw : rs.validators[n]? = some w) :
    v.field ≠ w.field ∧ ∀ (subject : Value) (place : List Position),
      subject.place? v.path.segments = some place →
        (subject.place? w.path.segments = some place ↔
          subject.SpellAlike place v.path.segments w.path.segments) ∧
        (v.path.IsCanonical → w.path.IsCanonical →
          subject.place? w.path.segments ≠ some place) := by
  have hne := field_ne_of_ofValidatorsBy hb h hmn hv hw
  refine ⟨hne, fun subject place hp => ?_⟩
  have hiff : subject.place? w.path.segments = some place ↔
      subject.SpellAlike place v.path.segments w.path.segments :=
    Value.place?_eq_some_iff_spellAlike hp
  refine ⟨hiff, fun hcv hcw hq => hne ?_⟩
  have heq : v.path.segments = w.path.segments := (hiff.1 hq).eq_of_canonical hcv hcw
  rw [Validator.field, Validator.field, FieldPath.text, FieldPath.text, heq]

/-- An index with a leading zero leads to the node of the one without it, and the next index does
not. -/
theorem leading_zero_places_eq :
    let vs := Builder.validators {} [("tags.0", ["STR", "HARDTRIM"]), ("tags.00", ["STR"]),
      ("tags.1", ["STR"])]
    let subject : Value :=
      .object [("tags", .list [.scalar (.string " a"), .nilable (.string "b")])]
    (∀ v ∈ vs, v.IsBuilt) ∧ ∃ rs v w u, ofValidatorsBy Graph.stuck? vs {} = .ok rs ∧
      rs.validators[0]? = some v ∧ rs.validators[1]? = some w ∧ rs.validators[2]? = some u ∧
      v.field ≠ w.field ∧ subject.place? v.path.segments = some [.key "tags", .index 0] ∧
      subject.SpellAlike [.key "tags", .index 0] v.path.segments w.path.segments ∧
      subject.place? w.path.segments = some [.key "tags", .index 0] ∧
      v.path.IsCanonical ∧ u.path.IsCanonical ∧
      subject.place? u.path.segments ≠ some [.key "tags", .index 0] := by
  intro vs subject
  have hb : ∀ v ∈ vs, v.IsBuilt := fun v hv => Builder.isBuilt_of_mem_validators hv
  have hrs : ofValidatorsBy Graph.stuck? vs {} = .ok ⟨inOrder vs, {}⟩ :=
    ofValidatorsBy_of_nodup hb (by decide +kernel) (by decide +kernel) _
  have hpaths : (inOrder vs).map (·.path) = [⟨["tags", "0"], by simp⟩, ⟨["tags", "00"], by simp⟩,
      ⟨["tags", "1"], by simp⟩] := by decide +kernel
  obtain ⟨v, hv, hvp⟩ := exists_getElem?_of_map_eq hpaths 0 rfl
  obtain ⟨w, hw, hwp⟩ := exists_getElem?_of_map_eq hpaths 1 rfl
  obtain ⟨u, hu, hup⟩ := exists_getElem?_of_map_eq hpaths 2 rfl
  have hp : subject.place? v.path.segments = some [.key "tags", .index 0] := by rw [hvp]; rfl
  have hq : subject.place? w.path.segments = some [.key "tags", .index 0] := by rw [hwp]; rfl
  have hcv : v.path.IsCanonical := by rw [hvp]; decide +kernel
  have hcu : u.path.IsCanonical := by rw [hup]; decide +kernel
  obtain ⟨hne, hmeet⟩ := places_eq_iff hb hrs (by decide) hv hw
  obtain ⟨hspell, _⟩ := hmeet subject _ hp
  obtain ⟨_, hmiss⟩ := places_eq_iff hb hrs (by decide) hv hu
  obtain ⟨_, hapart⟩ := hmiss subject _ hp
  exact ⟨hb, _, v, w, u, hrs, hv, hw, hu, hne, hp, hspell.1 hq, hq, hcv, hcu, hapart hcv hcu⟩

/-- Two fields of an accepted rule set may lead to one node. -/
theorem two_spellings_meet :
    let vs := Builder.validators {} [("tags.0", ["STR", "HARDTRIM"]), ("tags.00", ["STR"])]
    let subject : Value := .object [("tags", .list [.scalar (.string " a")])]
    (∀ v ∈ vs, v.IsBuilt) ∧ ∃ rs v w, ofValidatorsBy Graph.stuck? vs {} = .ok rs ∧
      rs.validators[0]? = some v ∧ rs.validators[1]? = some w ∧ v.field ≠ w.field ∧
      subject.resolve v.path = .ok (some (.scalar (.string " a"))) ∧
      subject.place? v.path.segments = some [.key "tags", .index 0] ∧
      subject.resolve w.path = .ok (some (.scalar (.string " a"))) ∧
      subject.place? w.path.segments = some [.key "tags", .index 0] := by
  intro vs subject
  have hb : ∀ v ∈ vs, v.IsBuilt := fun v hv => Builder.isBuilt_of_mem_validators hv
  have hrs : ofValidatorsBy Graph.stuck? vs {} = .ok ⟨inOrder vs, {}⟩ :=
    ofValidatorsBy_of_nodup hb (by decide +kernel) (by decide +kernel) _
  have hpaths : (inOrder vs).map (·.path) =
      [⟨["tags", "0"], by simp⟩, ⟨["tags", "00"], by simp⟩] := by decide +kernel
  obtain ⟨v, hv, hvp⟩ := exists_getElem?_of_map_eq hpaths 0 rfl
  obtain ⟨w, hw, hwp⟩ := exists_getElem?_of_map_eq hpaths 1 rfl
  refine ⟨hb, _, v, w, hrs, hv, hw, ?_, ?_, ?_, ?_, ?_⟩
  · rw [Validator.field, Validator.field, hvp, hwp]
    decide
  · rw [hvp]
    rfl
  · rw [hvp]
    rfl
  · rw [hwp]
    rfl
  · rw [hwp]
    rfl

end RuleSet
end FieldRules

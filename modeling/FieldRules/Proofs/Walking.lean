import FieldRules.Proofs.DotPrefix
import FieldRules.Proofs.Overwriting

/-! How a walk through a subject ends, by the first thing on the way that stops it, where an index
of a list is any text of digits. Two kinds of numerals are read otherwise: those that do not fit
64 bits are refused, and those behind a plus sign are taken. -/
namespace FieldRules

namespace Text

theorem digits?_plus (ds : List Char) : digits? ('+' :: ds) = none := by
  simp [digits?, isNumeral]

theorem natural?_plus (ds : List Char) :
    natural? ('+' :: ds) = (digits? ds).filter (· < 0x10000000000000000) := rfl

theorem natural?_of_not_plus {cs : List Char} (h : ∀ ds, cs ≠ '+' :: ds) :
    natural? cs = (digits? cs).filter (· < 0x10000000000000000) := by
  unfold natural?
  split
  · rename_i ds
    exact absurd rfl (h ds)
  · rfl

theorem natural?_of_large {cs : List Char} {n : Nat} (h : digits? cs = some n)
    (hn : 0x10000000000000000 ≤ n) : natural? cs = none := by
  have hplus : ∀ ds, cs ≠ '+' :: ds := by
    rintro ds rfl
    simp [digits?_plus] at h
  rw [natural?_of_not_plus hplus, h]
  exact Option.filter_some_neg (decide_eq_false (Nat.not_lt.2 hn))

theorem natural?_plus_of_lt {ds : List Char} {n : Nat} (h : digits? ds = some n)
    (hn : n < 0x10000000000000000) : natural? ('+' :: ds) = some n := by
  rw [natural?_plus, h]
  exact Option.filter_some_pos (decide_eq_true hn)

end Text

/-- A numeral that does not fit 64 bits, or one that does behind a plus sign. -/
def IsStray (segment : String) : Prop :=
  (∃ n, Text.digits? segment.toList = some n ∧ 0x10000000000000000 ≤ n) ∨
    ∃ ds n, segment.toList = '+' :: ds ∧ Text.digits? ds = some n ∧ n < 0x10000000000000000

/-- All other segments are read by their digits. -/
theorem isStray_iff {segment : String} :
    IsStray segment ↔ Text.natural? segment.toList ≠ Text.digits? segment.toList := by
  constructor
  · rintro (⟨n, hn, hle⟩ | ⟨ds, n, hds, hn, hlt⟩)
    · simp [Text.natural?_of_large hn hle, hn]
    · simp [hds, Text.natural?_plus_of_lt hn hlt, Text.digits?_plus]
  · intro h
    by_contra hs
    obtain ⟨hlarge, hplus⟩ := not_or.1 hs
    apply h
    by_cases hp : ∃ ds, segment.toList = '+' :: ds
    · obtain ⟨ds, hds⟩ := hp
      rw [hds, Text.natural?_plus, Text.digits?_plus]
      cases hn : Text.digits? ds with
      | none => rfl
      | some n =>
        have hlt : ¬ n < 0x10000000000000000 := fun hlt => hplus ⟨ds, n, hds, hn, hlt⟩
        exact Option.filter_some_neg (decide_eq_false hlt)
    · rw [Text.natural?_of_not_plus fun ds hds => hp ⟨ds, hds⟩]
      cases hn : Text.digits? segment.toList with
      | none => rfl
      | some n =>
        have hlt : n < 0x10000000000000000 := Nat.lt_of_not_le fun hle => hlarge ⟨n, hn, hle⟩
        exact Option.filter_some_pos (decide_eq_true hlt)

instance (segment : String) : Decidable (IsStray segment) := decidable_of_iff _ isStray_iff.symm

namespace Value

/-- The end of a walk. It stops at null, at a key that is missing, at an index out of range, at a
segment that is no index of the list, and at a scalar; else it comes to the end of the way. -/
inductive Ends : Value → List String → Except Obstacle (Option Value) → Prop
  | found {v : Value} (h : v.isNull = false) : Ends v [] (.ok (some v))
  | null {p : List String} : Ends .null p (.ok none)
  | missing {es : Entries Value} {s : String} {p : List String} (h : Entries.get? s es = none) :
      Ends (.object es) (s :: p) (.ok none)
  | key {es : Entries Value} {s : String} {p : List String} {w : Value}
      {r : Except Obstacle (Option Value)} (h : Entries.get? s es = some w) (hr : Ends w p r) :
      Ends (.object es) (s :: p) r
  | outOfRange {items : List Value} {s : String} {p : List String} {n : Nat}
      (hn : Text.digits? s.toList = some n) (h : items.length ≤ n) :
      Ends (.list items) (s :: p) (.ok none)
  | index {items : List Value} {s : String} {p : List String} {n : Nat} {w : Value}
      {r : Except Obstacle (Option Value)} (hn : Text.digits? s.toList = some n)
      (h : items[n]? = some w) (hr : Ends w p r) : Ends (.list items) (s :: p) r
  | notDigits {items : List Value} {s : String} {p : List String}
      (h : Text.digits? s.toList = none) : Ends (.list items) (s :: p) (.error (.badIndex s))
  | scalar {v : Value} {s : String} {p : List String} {t : ScalarType} (h : v.shape = .scalar t) :
      Ends v (s :: p) (.error (.notAContainer s (.scalar t)))

theorem exists_ends (v : Value) (p : List String) : ∃ r, v.Ends p r := by
  induction p generalizing v with
  | nil =>
    cases v with
    | null => exact ⟨_, .null⟩
    | _ => exact ⟨_, .found rfl⟩
  | cons s p ih =>
    cases v with
    | null => exact ⟨_, .null⟩
    | object es =>
      cases h : Entries.get? s es with
      | none => exact ⟨_, .missing h⟩
      | some w =>
        obtain ⟨r, hr⟩ := ih w
        exact ⟨r, .key h hr⟩
    | list items =>
      cases hn : Text.digits? s.toList with
      | none => exact ⟨_, .notDigits hn⟩
      | some n =>
        by_cases h : n < items.length
        · obtain ⟨r, hr⟩ := ih items[n]
          exact ⟨r, .index hn (List.getElem?_eq_getElem h) hr⟩
        · exact ⟨_, .outOfRange hn (Nat.le_of_not_lt h)⟩
    | _ => exact ⟨_, .scalar rfl⟩

theorem Ends.eq {v : Value} {p : List String} {r r' : Except Obstacle (Option Value)}
    (h : v.Ends p r) (h' : v.Ends p r') : r = r' := by
  induction h with
  | found h =>
    cases h' with
    | found => rfl
    | null => simp [isNull] at h
  | null =>
    cases h' with
    | found h => simp [isNull] at h
    | null => rfl
    | scalar h => simp [shape] at h
  | missing h =>
    cases h' with
    | missing => rfl
    | key h' => simp [h] at h'
    | scalar h' => simp [shape] at h'
  | key h _ ih =>
    cases h' with
    | missing h' => simp [h] at h'
    | key h' hr' =>
      obtain rfl := Option.some.inj (h.symm.trans h')
      exact ih hr'
    | scalar h' => simp [shape] at h'
  | outOfRange hn h =>
    cases h' with
    | outOfRange => rfl
    | index hn' h' =>
      obtain rfl := Option.some.inj (hn.symm.trans hn')
      simp [List.getElem?_eq_none h] at h'
    | notDigits h' => simp [hn] at h'
    | scalar h' => simp [shape] at h'
  | index hn h _ ih =>
    cases h' with
    | outOfRange hn' h' =>
      obtain rfl := Option.some.inj (hn.symm.trans hn')
      simp [List.getElem?_eq_none h'] at h
    | index hn' h' hr' =>
      obtain rfl := Option.some.inj (hn.symm.trans hn')
      obtain rfl := Option.some.inj (h.symm.trans h')
      exact ih hr'
    | notDigits h' => simp [hn] at h'
    | scalar h' => simp [shape] at h'
  | notDigits h =>
    cases h' with
    | outOfRange hn' => simp [h] at hn'
    | index hn' => simp [h] at hn'
    | notDigits => rfl
    | scalar h' => simp [shape] at h'
  | scalar h =>
    cases h' with
    | scalar h' =>
      obtain rfl := Shape.scalar.inj (h.symm.trans h')
      rfl
    | _ => simp [shape] at h

theorem child?_of_shape_scalar {v : Value} {t : ScalarType} (h : v.shape = .scalar t) (s : String) :
    v.child? s = .error (.notAContainer s (.scalar t)) := by
  cases v with
  | scalar _ => rw [← h]; rfl
  | nilable _ => rw [← h]; rfl
  | unset _ => rw [← h]; rfl
  | _ => simp [shape] at h

/-- A walk along the way meets no list with a numeral that is read otherwise. -/
def MeetsNoStray (v : Value) (p : List String) : Prop :=
  ∀ before s after items, p = before ++ s :: after →
    v.walk before = .ok (some (.list items)) → ¬ IsStray s

theorem MeetsNoStray.child {v w : Value} {s : String} {p : List String}
    (h : v.MeetsNoStray (s :: p)) (hw : v.child? s = .ok (some w)) : w.MeetsNoStray p := by
  intro before t after items hp ht
  refine h (s :: before) t after items (by rw [hp, List.cons_append]) ?_
  rw [walk_cons, hw]
  exact ht

theorem MeetsNoStray.natural?_eq {items : List Value} {s : String} {p : List String}
    (h : (list items).MeetsNoStray (s :: p)) :
    Text.natural? s.toList = Text.digits? s.toList :=
  not_not.1 (mt isStray_iff.2 (h [] s p items rfl rfl))

/-- Where no list is met with a numeral that is read otherwise, the walk ends as it should. -/
theorem Ends.walk_eq {v : Value} {p : List String} {r : Except Obstacle (Option Value)}
    (h : v.Ends p r) (hs : v.MeetsNoStray p) : v.walk p = r := by
  induction h with
  | found h => simp [h]
  | @null p => cases p <;> rfl
  | missing h => simp [walk_cons, child?, h]
  | @key es s p w r h _ ih =>
    have hw : (Value.object es).child? s = .ok (some w) := by rw [child?, h]
    rw [walk_cons, hw]
    exact ih (hs.child hw)
  | outOfRange hn h => simp [walk_cons, child?, hs.natural?_eq, hn, List.getElem?_eq_none h]
  | @index items s p n w r hn h _ ih =>
    have hw : (Value.list items).child? s = .ok (some w) := by simp [child?, hs.natural?_eq, hn, h]
    rw [walk_cons, hw]
    exact ih (hs.child hw)
  | notDigits h => simp [walk_cons, child?, hs.natural?_eq, h]
  | scalar h => rw [walk_cons, child?_of_shape_scalar h]

theorem walk_append_list {v : Value} {before after : List String} {s : String}
    {items : List Value} (h : v.walk before = .ok (some (.list items))) :
    v.walk (before ++ s :: after) = match Text.natural? s.toList with
      | none => .error (.badIndex s)
      | some n =>
        match items[n]? with
        | none => .ok none
        | some w => w.walk after := by
  rw [walk_append h, walk_cons, child?]
  cases Text.natural? s.toList with
  | none => rfl
  | some n => cases hn : items[n]? <;> simp [hn]

/-- A walk along a path comes to the one end that it should, with the path named where there is an
obstacle, unless it meets a list with a numeral that is read otherwise: one that does not fit
64 bits is an obstacle, though it is out of range, and one behind a plus sign is an index. -/
theorem resolve_ends {text : String} {p : FieldPath} (hp : FieldPath.parse text = .ok p)
    (subject : Value) :
    (∃! r, subject.Ends p.segments r) ∧
    (∀ r, subject.Ends p.segments r →
      (∀ before s after items, p.segments = before ++ s :: after →
        subject.walk before = .ok (some (.list items)) → ¬ IsStray s) →
      subject.resolve p = r.mapError (PathError.mk text)) ∧
    ∀ before s after items, p.segments = before ++ s :: after →
      subject.walk before = .ok (some (.list items)) →
        (∀ n, Text.digits? s.toList = some n → 0x10000000000000000 ≤ n →
          subject.resolve p = .error ⟨text, .badIndex s⟩) ∧
        ∀ ds n, s.toList = '+' :: ds → Text.digits? ds = some n → n < 0x10000000000000000 →
          subject.resolve p = Except.mapError (PathError.mk text) (match items[n]? with
            | none => .ok none
            | some w => w.walk after) := by
  have htext : p.text = text := FieldPath.text_of_parse hp
  refine ⟨?_, fun r hr hs => ?_, fun before s after items hsplit hwalk => ⟨?_, ?_⟩⟩
  · obtain ⟨r, hr⟩ := exists_ends subject p.segments
    exact ⟨r, hr, fun r' hr' => hr'.eq hr⟩
  · rw [resolve, hr.walk_eq hs, htext]
  · intro n hn hle
    rw [resolve, hsplit, walk_append_list hwalk, Text.natural?_of_large hn hle, htext]
    rfl
  · intro ds n hds hn hlt
    rw [resolve, hsplit, walk_append_list hwalk, hds, Text.natural?_plus_of_lt hn hlt, htext]

/-- The walk stops at null, whatever is still to come, and at a list that is too short for an index
with leading zeros. -/
theorem missing_rows_resolve_ends :
    let subject : Value := .object [("rows", .list [.null, .nilable (.int 2)])]
    ∃ p q, FieldPath.parse "rows.0.+9.x" = .ok p ∧ FieldPath.parse "rows.0002" = .ok q ∧
      subject.Ends p.segments (.ok none) ∧ subject.resolve p = .ok none ∧
      subject.Ends q.segments (.ok none) ∧ subject.resolve q = .ok none := by
  intro subject
  let p : FieldPath := ⟨["rows", "0", "+9", "x"], by simp⟩
  let q : FieldPath := ⟨["rows", "0002"], by simp⟩
  have hp : FieldPath.parse "rows.0.+9.x" = .ok p := by rfl
  have hq : FieldPath.parse "rows.0002" = .ok q := by rfl
  have hpe : subject.Ends p.segments (.ok none) := .key rfl (.index rfl rfl .null)
  have hqe : subject.Ends q.segments (.ok none) := .key rfl (.outOfRange rfl (by decide))
  refine ⟨p, q, hp, hq, hpe, ?_, hqe, ?_⟩
  · refine (resolve_ends hp subject).2.1 _ hpe fun before s after items hsplit hwalk => ?_
    -- The only list on the way is met with the index 0; behind it is nothing.
    have hnone : ∀ rest, subject.walk ("rows" :: "0" :: rest) = .ok none := fun rest => by
      cases rest <;> rfl
    rcases before with _ | ⟨a, _ | ⟨b, before⟩⟩
    · exact absurd hwalk (by simp [subject, isNull])
    · obtain ⟨_, rfl, _⟩ : "rows" = a ∧ "0" = s ∧ _ := by simpa [p] using hsplit
      decide +kernel
    · obtain ⟨rfl, rfl, _⟩ : "rows" = a ∧ "0" = b ∧ _ := by simpa [p] using hsplit
      simp [hnone] at hwalk
  · refine (resolve_ends hq subject).2.1 _ hqe fun before s after items hsplit _ => ?_
    have hplain : ∀ t ∈ q.segments, ¬ IsStray t := by decide +kernel
    exact hplain s (by simp [hsplit])

/-- An index that does not fit 64 bits is taken for an obstacle, and a plus sign for part of an
index. -/
theorem large_index_refused :
    let subject : Value := .object [("tags", .list [.scalar (.string "a"), .scalar (.string "b")])]
    ∃ p q, FieldPath.parse "tags.18446744073709551616" = .ok p ∧
      FieldPath.parse "tags.+1" = .ok q ∧
      subject.Ends p.segments (.ok none) ∧
      subject.resolve p = .error ⟨"tags.18446744073709551616", .badIndex "18446744073709551616"⟩ ∧
      subject.Ends q.segments (.error (.badIndex "+1")) ∧
      subject.resolve q = .ok (some (.scalar (.string "b"))) := by
  intro subject
  refine ⟨⟨["tags", "18446744073709551616"], by simp⟩, ⟨["tags", "+1"], by simp⟩, by rfl, by rfl,
    ?_, by rfl, ?_, by rfl⟩
  · exact .key rfl (.outOfRange rfl (by decide))
  · exact .key rfl (.notDigits rfl)

end Value
end FieldRules

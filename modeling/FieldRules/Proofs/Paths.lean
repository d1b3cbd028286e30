import FieldRules.Proofs.Absence

/-! Paths as texts. A text is a path if its dots stand apart and at neither end, the paths above it
are its beginnings up to a dot, and a path behind another goes on from what the first one finds. -/
namespace FieldRules

namespace Text
variable {sep : Char} {cs : List Char}

theorem nil_mem_splitChars_iff_tail :
    [] ∈ splitChars sep cs ↔ cs = [] ∨ [sep] <+: cs ∨ [] ∈ (splitChars sep cs).tail := by
  cases cs with
  | nil => simp [splitChars]
  | cons c cs =>
    by_cases h : c = sep
    · simp [splitChars, h]
    · obtain ⟨part, parts, hs⟩ := List.exists_cons_of_ne_nil (splitChars_ne_nil sep cs)
      simp [splitChars, h, hs, consFirst, Ne.symm h]

/-- Behind the first cut a part is empty if the next cut is at once, or the text ends there. -/
theorem nil_mem_tail_splitChars_iff :
    [] ∈ (splitChars sep cs).tail ↔ [sep] <:+ cs ∨ [sep, sep] <:+: cs := by
  induction cs with
  | nil => simp [splitChars]
  | cons c cs ih =>
    rw [List.suffix_cons_iff, List.infix_cons_iff, List.cons_prefix_cons]
    by_cases h : c = sep
    · subst h
      rw [splitChars, if_pos rfl, List.tail_cons, nil_mem_splitChars_iff_tail, ih]
      simp only [List.cons.injEq, true_and, eq_comm (a := [])]
      tauto
    · obtain ⟨part, parts, hs⟩ := List.exists_cons_of_ne_nil (splitChars_ne_nil sep cs)
      rw [splitChars, if_neg h, hs, consFirst, List.tail_cons]
      rw [hs, List.tail_cons] at ih
      simp [ih, Ne.symm h]

theorem nil_mem_splitChars_iff :
    [] ∈ splitChars sep cs ↔
      cs = [] ∨ [sep] <+: cs ∨ [sep] <:+ cs ∨ [sep, sep] <:+: cs := by
  rw [nil_mem_splitChars_iff_tail, nil_mem_tail_splitChars_iff]

end Text

namespace FieldPath
variable {text : String} {p q : FieldPath}

theorem exists_parse_iff :
    (∃ p, parse text = .ok p) ↔ text ≠ "" ∧ ¬ ['.'] <+: text.toList ∧
      ¬ ['.'] <:+ text.toList ∧ ¬ ['.', '.'] <:+: text.toList := by
  have hempty : "" ∈ Text.split '.' text ↔ [] ∈ Text.splitChars '.' text.toList := by
    simp [Text.split]
  have hne : Text.split '.' text ≠ [] := by
    simpa [Text.split] using Text.splitChars_ne_nil '.' text.toList
  have hparse : (∃ p, parse text = .ok p) ↔ "" ∉ Text.split '.' text := by
    unfold parse
    split
    · rename_i h
      simp [h.resolve_left hne]
    · rename_i h
      simp [(not_or.1 h).2]
  rw [hparse, hempty, Text.nil_mem_splitChars_iff, String.toList_eq_nil_iff]
  simp only [not_or, ne_eq]

theorem IsPlain.parse_text (h : p.IsPlain) : parse p.text = .ok p := by
  have hsplit := h.split_text
  unfold parse
  rw [dif_neg]
  · simp only [hsplit]
  · rw [hsplit, not_or]
    exact ⟨p.ne_nil, fun hmem => (h "" hmem).1 rfl⟩

/-- The parents are the paths that a text is the beginning of up to a dot. -/
theorem IsPlain.mem_parents_iff (h : p.IsPlain) {text : String} :
    text ∈ p.parents ↔ IsDotPrefix text p.text ∧ ∃ q, parse text = .ok q := by
  have hiff : ∀ q, parse text = .ok q → (text ∈ p.parents ↔ IsDotPrefix text p.text) := by
    intro q hq
    rw [← text_of_parse hq]
    exact (text_mem_parents_iff h (plain_of_parse hq)).trans
      (isDotPrefix_text_iff h (plain_of_parse hq)).symm
  constructor
  · intro hmem
    obtain ⟨n, hn, rfl⟩ := List.mem_map.1 hmem
    have hplain : IsPlain ⟨p.segments.take (n + 1), by simp [p.ne_nil]⟩ :=
      fun s hs => h s (List.mem_of_mem_take hs)
    exact ⟨(hiff _ hplain.parse_text).1 hmem, _, hplain.parse_text⟩
  · rintro ⟨hbegins, q, hq⟩
    exact (hiff q hq).2 hbegins

theorem length_joinDots_take_lt {segments : List String} {m n : Nat} (hmn : m < n)
    (hn : n < segments.length) :
    (joinDots (segments.take (m + 1))).length < (joinDots (segments.take (n + 1))).length := by
  have hsplit : segments.take (n + 1) =
      segments.take (m + 1) ++ (segments.drop (m + 1)).take (n - m) := by
    rw [← List.take_add]
    congr 1
    omega
  rw [hsplit, joinDots_append, String.length_append, String.length_append]
  · have hdot : (".").length = 1 := rfl
    omega
  · apply List.ne_nil_of_length_pos
    rw [List.length_take]
    omega
  · apply List.ne_nil_of_length_pos
    rw [List.length_take, List.length_drop]
    omega

/-- The parents are listed from the shortest to the longest. -/
theorem parents_pairwise_length (p : FieldPath) :
    p.parents.Pairwise fun a b => a.length < b.length := by
  apply List.pairwise_map.2
  apply List.Pairwise.imp_of_mem _ List.pairwise_lt_range
  intro m n _ hn hmn
  have hn := List.mem_range.1 hn
  exact length_joinDots_take_lt hmn (by omega)

/-- A path behind another is the path of the segments of both. -/
theorem parse_joined {f g : String} (hp : parse f = .ok p) (hq : parse g = .ok q) :
    parse (f ++ "." ++ g) = .ok ⟨p.segments ++ q.segments, by simp [p.ne_nil]⟩ := by
  have hplain : IsPlain ⟨p.segments ++ q.segments, by simp [p.ne_nil]⟩ := by
    intro s hs
    rcases List.mem_append.1 hs with hs | hs
    · exact plain_of_parse hp s hs
    · exact plain_of_parse hq s hs
  have htext : f ++ "." ++ g = joinDots (p.segments ++ q.segments) := by
    rw [joinDots_append p.ne_nil q.ne_nil, ← text, ← text, text_of_parse hp, text_of_parse hq]
  rw [htext]
  exact hplain.parse_text

end FieldPath

/-- A text is a path exactly if it is not empty and its dots stand neither at an end nor side by side,
and then it is its segments with dots between them. A validator for it depends on just the paths that
it begins with up to a dot, each once, the shorter ones first, and not on itself. -/
theorem Validator.dependsOn_dotPrefixes (text : String) :
    ((∃ p, FieldPath.parse text = .ok p) ↔ text ≠ "" ∧ ¬ ['.'] <+: text.toList ∧
      ¬ ['.'] <:+ text.toList ∧ ¬ ['.', '.'] <:+: text.toList) ∧
    (∀ p, FieldPath.parse text = .ok p → ".".intercalate p.segments = text) ∧
    ∀ (b : Builder) (kind? : Option Kind) (clauses : List String) (v : Validator),
      b.build kind? text clauses = .ok v →
        (∀ q, q ∈ v.dependsOn ↔ IsDotPrefix q text ∧ ∃ r, FieldPath.parse q = .ok r) ∧
        v.dependsOn.Pairwise (fun q r => q.length < r.length) ∧ v.dependsOn.Nodup ∧
        text ∉ v.dependsOn := by
  refine ⟨FieldPath.exists_parse_iff, fun p hp => FieldPath.text_of_parse hp, ?_⟩
  intro b kind? clauses v hv
  have hp := (Builder.of_build_eq_ok hv).1
  have hmem : ∀ q, q ∈ v.dependsOn ↔ IsDotPrefix q text ∧ ∃ r, FieldPath.parse q = .ok r := by
    intro q
    rw [dependsOn, (FieldPath.plain_of_parse hp).mem_parents_iff, FieldPath.text_of_parse hp]
  have hlength := v.path.parents_pairwise_length
  refine ⟨hmem, hlength, ?_, ?_⟩
  · apply hlength.imp
    rintro q _ hlt rfl
    omega
  · intro hself
    exact not_isDotPrefix_self text ((hmem text).1 hself).1

/-- A beginning that does not end at a dot is no dependency, and dots side by side make no path. -/
theorem Validator.row_name_dotPrefixes :
    (¬ ∃ p, FieldPath.parse "rows..name" = .ok p) ∧
    ∃ p v, FieldPath.parse "rows.0.name" = .ok p ∧ ".".intercalate p.segments = "rows.0.name" ∧
      ({} : Builder).build (some .string) "rows.0.name" ["REQ"] = .ok v ∧
      "rows.0" ∈ v.dependsOn ∧ "row" ∉ v.dependsOn ∧ "rows.0.name" ∉ v.dependsOn := by
  obtain ⟨hdoubled, _⟩ := dependsOn_dotPrefixes "rows..name"
  obtain ⟨hparse, hjoined, hbuilt⟩ := dependsOn_dotPrefixes "rows.0.name"
  obtain ⟨p, hp⟩ := hparse.2 (by decide)
  obtain ⟨v, hv⟩ : ∃ v, ({} : Builder).build (some .string) "rows.0.name" ["REQ"] = .ok v :=
    ⟨_, by rfl⟩
  obtain ⟨hmem, _, _, hself⟩ := hbuilt _ _ _ v hv
  refine ⟨mt hdoubled.1 (by decide), p, v, hp, hjoined p hp, hv, ?_, ?_, hself⟩
  · exact (hmem "rows.0").2 ⟨⟨"name", rfl⟩, _, by rfl⟩
  · intro hrow
    exact absurd ((hmem "row").1 hrow).1 (by decide)

namespace Value

theorem walk_append_of_error {v : Value} {p : List String} {o : Obstacle}
    (h : v.walk p = .error o) (q : List String) : v.walk (p ++ q) = .error o := by
  induction p generalizing v with
  | nil => simp at h
  | cons s p ih =>
    rw [walk_cons] at h
    rw [List.cons_append, walk_cons]
    cases hs : v.child? s with
    | error e =>
      rw [hs] at h
      exact h
    | ok child =>
      rw [hs] at h
      cases child with
      | none => simp at h
      | some w => exact ih h

theorem resolve_eq_error_iff {v : Value} {p : FieldPath} {e : PathError} :
    v.resolve p = .error e ↔ ∃ o, v.walk p.segments = .error o ∧ e = ⟨p.text, o⟩ := by
  unfold resolve
  cases v.walk p.segments <;> simp [Except.mapError, eq_comm]

/-- A path behind another goes on from what the first one finds. Where that is nothing, or an
obstacle, it comes to the same. Obstacles are told with the whole path. -/
theorem resolve_joined {f g : String} {p q : FieldPath} (hp : FieldPath.parse f = .ok p)
    (hq : FieldPath.parse g = .ok q) (subject : Value) :
    ∃ pq, FieldPath.parse (f ++ "." ++ g) = .ok pq ∧ pq.segments = p.segments ++ q.segments ∧
      (∀ v, subject.resolve p = .ok (some v) →
        subject.resolve pq = (v.resolve q).mapError fun e => ⟨f ++ "." ++ g, e.obstacle⟩) ∧
      (subject.resolve p = .ok none → subject.resolve pq = .ok none) ∧
      ∀ e, subject.resolve p = .error e →
        subject.resolve pq = .error ⟨f ++ "." ++ g, e.obstacle⟩ := by
  have hpq := FieldPath.parse_joined hp hq
  have htext := FieldPath.text_of_parse hpq
  refine ⟨_, hpq, rfl, ?_, ?_, ?_⟩
  · intro v hv
    rw [resolve, walk_append (walk_of_resolve hv), htext, resolve]
    cases v.walk q.segments <;> rfl
  · intro hnone
    rw [resolve, walk_append_of_none (walk_of_resolve hnone)]
    rfl
  · intro e he
    obtain ⟨o, ho, rfl⟩ := resolve_eq_error_iff.1 he
    rw [resolve, walk_append_of_error ho, htext]
    rfl

/-- Behind the first row the string is an obstacle, though a nilable holds it. Behind a row that is
null, and behind one that cannot be named so, the rest of the path does not count. -/
theorem first_name_resolve_joined :
    let subject : Value :=
      .object [("rows", .list [.object [("name", .nilable (.string "a"))], .null])]
    (∃ p, FieldPath.parse "rows.0.name.first" = .ok p ∧ subject.resolve p =
      .error ⟨"rows.0.name.first", .notAContainer "first" (.scalar .string)⟩) ∧
    (∃ p, FieldPath.parse "rows.1.name.first" = .ok p ∧ subject.resolve p = .ok none) ∧
    ∃ p, FieldPath.parse "rows.last.name.first" = .ok p ∧ subject.resolve p =
      .error ⟨"rows.last.name.first", .badIndex "last"⟩ := by
  intro subject
  let name : FieldPath := ⟨["name", "first"], by simp⟩
  have hname : FieldPath.parse "name.first" = .ok name := by rfl
  obtain ⟨p, hp, _, hfound, _⟩ :=
    resolve_joined (show FieldPath.parse "rows.0" = .ok ⟨["rows", "0"], by simp⟩ by rfl) hname subject
  obtain ⟨q, hq, _, _, hnone, _⟩ :=
    resolve_joined (show FieldPath.parse "rows.1" = .ok ⟨["rows", "1"], by simp⟩ by rfl) hname subject
  obtain ⟨r, hr, _, _, _, herror⟩ :=
    resolve_joined (show FieldPath.parse "rows.last" = .ok ⟨["rows", "last"], by simp⟩ by rfl) hname
      subject
  refine ⟨⟨p, hp, ?_⟩, ⟨q, hq, hnone rfl⟩, r, hr, ?_⟩
  · rw [hfound (.object [("name", .nilable (.string "a"))]) rfl]
    rfl
  · exact herror ⟨"rows.last", .badIndex "last"⟩ rfl

end Value
end FieldRules

import FieldRules.Text.Separated

/-! Texts with doubled separators, cut and written again. Every text is written again from its
parts, and the lists of parts that are found again are exactly those that cutting can make. -/
namespace FieldRules.Text

/-- No part after the first begins with the separator, and none between the first and the last is
empty. -/
structure IsCut (sep : Char) (parts : List (List Char)) : Prop where
  starts : ∀ part ∈ parts.tail, part.head? ≠ some sep
  nonempty : ∀ part ∈ parts.tail.dropLast, part ≠ []

section
variable {sep : Char} {parts : List (List Char)}

theorem escapeChars_cons (sep c : Char) (cs : List Char) :
    escapeChars sep (c :: cs) = escapeChars sep [c] ++ escapeChars sep cs := by
  by_cases h : c = sep <;> simp [escapeChars, h]

theorem joinEscapedChars_cons (part : List Char) (h : parts ≠ []) :
    joinEscapedChars sep (part :: parts) =
      escapeChars sep part ++ sep :: joinEscapedChars sep parts := by
  cases parts with
  | nil => exact absurd rfl h
  | cons _ _ => rfl

/-- A character in front of the first part is written in front of all parts. -/
theorem joinEscapedChars_consFirst (c : Char) (h : parts ≠ []) :
    joinEscapedChars sep (consFirst c parts) =
      escapeChars sep [c] ++ joinEscapedChars sep parts := by
  cases parts with
  | nil => exact absurd rfl h
  | cons part rest =>
    rw [consFirst]
    by_cases hr : rest = []
    · subst hr
      exact escapeChars_cons sep c part
    · rw [joinEscapedChars_cons _ hr, joinEscapedChars_cons _ hr, escapeChars_cons,
        List.append_assoc]

theorem joinEscapedChars_splitEscapedChars (sep : Char) (cs : List Char) :
    joinEscapedChars sep (splitEscapedChars sep cs) = cs := by
  fun_induction splitEscapedChars sep cs with
  | case1 => rfl
  | case2 => simp [joinEscapedChars, escapeChars]
  | case3 c h => simp [joinEscapedChars, escapeChars, h]
  | case4 cs ih =>
    rw [joinEscapedChars_consFirst _ (splitEscapedChars_ne_nil sep cs), ih]
    simp [escapeChars]
  | case5 d cs hd ih =>
    rw [joinEscapedChars_cons _ (splitEscapedChars_ne_nil sep _), ih]
    rfl
  | case6 c d cs hc ih =>
    rw [joinEscapedChars_consFirst _ (splitEscapedChars_ne_nil sep _), ih]
    simp [escapeChars, hc]

theorem splitEscapedChars_of_ne {c : Char} (h : c ≠ sep) (cs : List Char) :
    splitEscapedChars sep (c :: cs) = consFirst c (splitEscapedChars sep cs) := by
  cases cs <;> simp [splitEscapedChars, consFirst, h]

theorem splitEscapedChars_doubled (sep : Char) (cs : List Char) :
    splitEscapedChars sep (sep :: sep :: cs) = consFirst sep (splitEscapedChars sep cs) := by
  simp [splitEscapedChars]

/-- A separator cuts where none follows it. -/
theorem splitEscapedChars_single {cs : List Char} (h : cs.head? ≠ some sep) :
    splitEscapedChars sep (sep :: cs) = [] :: splitEscapedChars sep cs := by
  cases cs with
  | nil => simp [splitEscapedChars]
  | cons d cs =>
    have hd : d ≠ sep := by simpa using h
    simp [splitEscapedChars, hd]

/-- A part is read through to its end, whatever follows it. -/
theorem splitEscapedChars_escapeChars_append (part cs : List Char) :
    splitEscapedChars sep (escapeChars sep part ++ cs) =
      part.foldr consFirst (splitEscapedChars sep cs) := by
  induction part with
  | nil => rfl
  | cons c part ih =>
    by_cases hc : c = sep
    · subst hc
      rw [escapeChars, if_pos rfl, List.cons_append, List.cons_append, splitEscapedChars_doubled,
        ih, List.foldr_cons]
    · rw [escapeChars, if_neg hc, List.cons_append, splitEscapedChars_of_ne hc, ih, List.foldr_cons]

theorem foldr_consFirst_cons (part first : List Char) (parts : List (List Char)) :
    part.foldr consFirst (first :: parts) = (part ++ first) :: parts := by
  induction part with
  | nil => rfl
  | cons c part ih => rw [List.foldr_cons, ih, consFirst, List.cons_append]

theorem isCut_single (sep : Char) (part : List Char) : IsCut sep [part] :=
  ⟨by simp, by simp⟩

theorem isCut_cons_cons_iff {part next : List Char} :
    IsCut sep (part :: next :: parts) ↔
      next.head? ≠ some sep ∧ (parts ≠ [] → next ≠ []) ∧ IsCut sep (next :: parts) := by
  constructor
  · rintro ⟨hs, hn⟩
    refine ⟨hs next (by simp), fun hp => hn next ?_, fun q hq => hs q ?_, fun q hq => hn q ?_⟩
    · rw [List.tail_cons, List.dropLast_cons_of_ne_nil hp]
      exact List.mem_cons_self
    · exact List.mem_cons_of_mem next hq
    · cases parts with
      | nil => simp at hq
      | cons _ _ => exact List.mem_cons_of_mem next hq
  · rintro ⟨hs, hn, h⟩
    refine ⟨fun q hq => ?_, fun q hq => ?_⟩
    · rcases List.mem_cons.1 hq with rfl | hq
      · exact hs
      · exact h.starts q hq
    · cases parts with
      | nil => simp at hq
      | cons _ _ =>
        rcases List.mem_cons.1 hq with rfl | hq
        · exact hn (by simp)
        · exact h.nonempty q hq

theorem isCut_consFirst (c : Char) (h : IsCut sep parts) : IsCut sep (consFirst c parts) := by
  cases parts with
  | nil => exact isCut_single sep [c]
  | cons _ _ => exact ⟨h.starts, h.nonempty⟩

/-- The part behind a separator that cuts begins with the character behind it. -/
theorem isCut_splitEscapedChars (sep : Char) (cs : List Char) :
    IsCut sep (splitEscapedChars sep cs) := by
  fun_induction splitEscapedChars sep cs with
  | case1 => exact isCut_single sep []
  | case2 => exact isCut_cons_cons_iff.2 ⟨by simp, by simp, isCut_single sep []⟩
  | case3 c h => exact isCut_single sep [c]
  | case4 cs ih => exact isCut_consFirst sep ih
  | case5 d cs hd ih =>
    rw [splitEscapedChars_of_ne hd] at ih ⊢
    cases hs : splitEscapedChars sep cs with
    | nil => exact absurd hs (splitEscapedChars_ne_nil sep cs)
    | cons next parts =>
      rw [hs] at ih
      exact isCut_cons_cons_iff.2 ⟨by simpa using hd, by simp, ih⟩
  | case6 c d cs hc ih => exact isCut_consFirst c ih

theorem head?_escapeChars_append {part : List Char} (h : part ≠ []) (cs : List Char) :
    (escapeChars sep part ++ cs).head? = part.head? := by
  cases part with
  | nil => exact absurd rfl h
  | cons c part => by_cases hc : c = sep <;> simp [escapeChars, hc]

theorem head?_joinEscapedChars_cons {part : List Char} (h : part ≠ []) :
    (joinEscapedChars sep (part :: parts)).head? = part.head? := by
  cases parts with
  | nil =>
    rw [joinEscapedChars, ← List.append_nil (escapeChars _ _), head?_escapeChars_append h]
  | cons next parts =>
    rw [joinEscapedChars_cons _ (List.cons_ne_nil next parts), head?_escapeChars_append h]

/-- What is written behind a cut does not begin with the separator. -/
theorem IsCut.head?_joinEscapedChars {part next : List Char}
    (h : IsCut sep (part :: next :: parts)) :
    (joinEscapedChars sep (next :: parts)).head? ≠ some sep := by
  obtain ⟨hs, hn, _⟩ := isCut_cons_cons_iff.1 h
  by_cases hnext : next = []
  · have hp : parts = [] := Classical.byContradiction fun hp => hn hp hnext
    subst hp hnext
    simp [joinEscapedChars, escapeChars]
  · rw [head?_joinEscapedChars_cons hnext]
    exact hs

theorem IsCut.splitEscapedChars_joinEscapedChars (h : IsCut sep parts) (hne : parts ≠ []) :
    splitEscapedChars sep (joinEscapedChars sep parts) = parts := by
  induction parts with
  | nil => exact absurd rfl hne
  | cons part parts ih =>
    cases parts with
    | nil =>
      rw [joinEscapedChars, ← List.append_nil (escapeChars _ _),
        splitEscapedChars_escapeChars_append, splitEscapedChars, foldr_consFirst_cons,
        List.append_nil]
    | cons next parts =>
      have hnext := (isCut_cons_cons_iff.1 h).2.2
      rw [joinEscapedChars_cons _ (List.cons_ne_nil next parts),
        splitEscapedChars_escapeChars_append, splitEscapedChars_single h.head?_joinEscapedChars,
        ih hnext (by simp), foldr_consFirst_cons, List.append_nil]

/-- Parts are found again exactly where cutting could have made them. -/
theorem splitEscapedChars_joinEscapedChars_iff (hne : parts ≠ []) :
    splitEscapedChars sep (joinEscapedChars sep parts) = parts ↔ IsCut sep parts := by
  constructor
  · intro h
    rw [← h]
    exact isCut_splitEscapedChars sep _
  · intro h
    exact h.splitEscapedChars_joinEscapedChars hne

end

theorem map_ofList_map_toList (parts : List String) :
    (parts.map String.toList).map String.ofList = parts := by
  rw [List.map_map]
  exact List.map_id'' (fun s => by simp) parts

theorem map_toList_map_ofList (parts : List (List Char)) :
    (parts.map String.ofList).map String.toList = parts := by
  rw [List.map_map]
  exact List.map_id'' (fun cs => by simp) parts

theorem joinEscaped_splitEscaped (sep : Char) (s : String) :
    joinEscaped sep (splitEscaped sep s) = s := by
  rw [joinEscaped, splitEscaped, map_toList_map_ofList, joinEscapedChars_splitEscapedChars]
  simp

theorem splitEscaped_joinEscaped_iff {sep : Char} {parts : List String} (hne : parts ≠ []) :
    splitEscaped sep (joinEscaped sep parts) = parts ↔ IsCut sep (parts.map String.toList) := by
  rw [← splitEscapedChars_joinEscapedChars_iff (by simpa using hne), splitEscaped, joinEscaped]
  constructor
  · intro h
    have := congrArg (List.map String.toList) h
    rwa [map_toList_map_ofList, String.toList_ofList] at this
  · intro h
    rw [String.toList_ofList, h, map_ofList_map_toList]

theorem isCut_map_toList_iff {sep : Char} {parts : List String} :
    IsCut sep (parts.map String.toList) ↔
      (∀ part ∈ parts.tail, part.toList.head? ≠ some sep) ∧
      ∀ part ∈ parts.tail.dropLast, part ≠ "" := by
  have hempty : ∀ part : String, part.toList ≠ [] ↔ part ≠ "" := fun part => by simp
  constructor
  · rintro ⟨hs, hn⟩
    rw [← List.map_tail] at hs hn
    rw [← List.map_dropLast] at hn
    exact ⟨fun part hp => hs _ (List.mem_map_of_mem hp),
      fun part hp => (hempty part).1 (hn _ (List.mem_map_of_mem hp))⟩
  · rintro ⟨hs, hn⟩
    constructor
    · rw [← List.map_tail]
      exact List.forall_mem_map.2 hs
    · rw [← List.map_tail, ← List.map_dropLast]
      exact List.forall_mem_map.2 fun part hp => (hempty part).2 (hn part hp)

/-- Cutting and writing with doubled separators are inverse to each other: on all texts, and on the
lists of parts where no part after the first begins with the separator and none between the first
and the last is empty. On all other lists they are not. -/
theorem splitEscaped_codec (sep : Char) :
    (∀ s, joinEscaped sep (splitEscaped sep s) = s) ∧ Function.Injective (splitEscaped sep) ∧
      ∀ parts : List String, parts ≠ [] →
        (splitEscaped sep (joinEscaped sep parts) = parts ↔
          (∀ part ∈ parts.tail, part.toList.head? ≠ some sep) ∧
          ∀ part ∈ parts.tail.dropLast, part ≠ "") := by
  refine ⟨joinEscaped_splitEscaped sep, ?_, fun parts hne => ?_⟩
  · exact Function.LeftInverse.injective (joinEscaped_splitEscaped sep)
  · exact (splitEscaped_joinEscaped_iff hne).trans isCut_map_toList_iff

/-- A part may end with separators, and the first may begin with one. A later one may not. -/
theorem clause_codec :
    splitEscaped ':' (joinEscaped ':' [":REG", "a:", ""]) = [":REG", "a:", ""] ∧
      splitEscaped ':' (joinEscaped ':' ["REG", ":a"]) ≠ ["REG", ":a"] ∧
      splitEscaped ':' (joinEscaped ':' ["REG", "", "X"]) ≠ ["REG", "", "X"] := by
  obtain ⟨_, _, h⟩ := splitEscaped_codec ':'
  refine ⟨(h _ (by decide)).2 (by decide), fun hc => ?_, fun hc => ?_⟩
  · exact absurd ((h _ (by decide)).1 hc).1 (by decide)
  · exact absurd ((h _ (by decide)).1 hc).2 (by decide)

end FieldRules.Text

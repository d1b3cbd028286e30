import FieldRules.Proofs.Building
import Mathlib.Data.List.Infix

/-! Field paths as they are written and as their segments. For paths that were parsed, one is
written as the beginning of another up to a dot exactly where its segments begin the other's. -/
namespace FieldRules

namespace Text

theorem splitChars_eq_splitOn (sep : Char) (cs : List Char) : splitChars sep cs = cs.splitOn sep := by
  induction cs with
  | nil => rfl
  | cons c cs ih =>
    rw [splitChars, List.splitOn_cons_eq_if_modifyHead, ih]
    by_cases h : c = sep
    · simp [h]
    · have hne := List.splitOn_ne_nil sep cs
      cases hs : cs.splitOn sep with
      | nil => exact absurd hs hne
      | cons part parts => simp [h, consFirst]

theorem not_mem_of_mem_splitChars {sep : Char} {cs part : List Char}
    (h : part ∈ splitChars sep cs) : sep ∉ part := by
  induction cs generalizing part with
  | nil => simp_all [splitChars]
  | cons c cs ih =>
    rw [splitChars] at h
    split at h
    · rcases List.mem_cons.1 h with rfl | h
      · simp
      · exact ih h
    · rename_i hc
      cases hs : splitChars sep cs with
      | nil => exact absurd hs (splitChars_ne_nil sep cs)
      | cons first parts =>
        rw [hs] at h ih
        rcases List.mem_cons.1 h with rfl | h
        · simpa [Ne.symm hc] using ih (List.mem_cons_self : first ∈ first :: parts)
        · exact ih (by simp [h])

theorem split_append (sep : Char) (s t : String) :
    split sep (s ++ sep.toString ++ t) = split sep s ++ split sep t := by
  simp [split, splitChars_eq_splitOn, List.splitOn_append_cons_self]

end Text

/-- The text begins with the other and a dot. -/
def IsDotPrefix (q f : String) : Prop := ∃ rest, f = q ++ "." ++ rest

instance (q f : String) : Decidable (IsDotPrefix q f) :=
  decidable_of_iff ((q ++ ".").toList <+: f.toList) <| by
    constructor
    · rintro ⟨rest, h⟩
      exact ⟨String.ofList rest, by rw [← String.toList_inj, ← h, String.toList_append]; simp⟩
    · rintro ⟨rest, rfl⟩
      exact ⟨rest.toList, String.toList_append.symm⟩

theorem isDotPrefix_trans {f g h : String} (hf : IsDotPrefix f g) (hg : IsDotPrefix g h) :
    IsDotPrefix f h := by
  obtain ⟨r, rfl⟩ := hf
  obtain ⟨s, rfl⟩ := hg
  exact ⟨r ++ "." ++ s, by simp only [String.append_assoc]⟩

theorem not_isDotPrefix_self (f : String) : ¬ IsDotPrefix f f := by
  rintro ⟨rest, h⟩
  have := congrArg String.length h
  simp only [String.length_append] at this
  have h1 : (".").length = 1 := rfl
  omega

namespace FieldPath

/-- No segment is empty or holds a dot. -/
def IsPlain (p : FieldPath) : Prop := ∀ s ∈ p.segments, s ≠ "" ∧ '.' ∉ s.toList

theorem joinDots_append {a b : List String} (ha : a ≠ []) (hb : b ≠ []) :
    joinDots (a ++ b) = joinDots a ++ "." ++ joinDots b :=
  String.intercalate_append_of_ne_nil ha hb

theorem split_joinDots {a : List String} (ha : a ≠ []) (h : ∀ s ∈ a, '.' ∉ s.toList) :
    Text.split '.' (joinDots a) = a := by
  have hs : (joinDots a).toList = ['.'].intercalate (a.map String.toList) := by
    simp [joinDots]
  rw [Text.split, Text.splitChars_eq_splitOn, hs, List.splitOn_intercalate '.' (by simpa using h)
    (by simpa using ha), List.map_map]
  exact List.map_id'' (fun s => by simp) a

theorem joinDots_split (s : String) : joinDots (Text.split '.' s) = s := by
  apply String.toList_inj.1
  have hid : (String.toList ∘ String.ofList) = id := funext fun cs => by simp
  simp [joinDots, Text.split, Text.splitChars_eq_splitOn, hid, List.intercalate_splitOn]

theorem plain_of_parse {s : String} {p : FieldPath} (h : parse s = .ok p) : p.IsPlain := by
  intro t ht
  rw [segments_of_parse h] at ht
  refine ⟨?_, ?_⟩
  · rintro rfl
    simp [parse, ht] at h
  · obtain ⟨part, hp, rfl⟩ := List.mem_map.1 ht
    simpa using Text.not_mem_of_mem_splitChars hp

theorem text_of_parse {s : String} {p : FieldPath} (h : parse s = .ok p) : p.text = s := by
  rw [text, segments_of_parse h, joinDots_split]

theorem IsPlain.split_text {p : FieldPath} (h : p.IsPlain) : Text.split '.' p.text = p.segments :=
  split_joinDots p.ne_nil fun s hs => (h s hs).2

/-- A path stands above another: its segments are the first of the other's, and not all. -/
def IsAbove (q p : FieldPath) : Prop := ∃ rest, rest ≠ [] ∧ p.segments = q.segments ++ rest

theorem isDotPrefix_text_iff {p q : FieldPath} (hp : p.IsPlain) (hq : q.IsPlain) :
    IsDotPrefix q.text p.text ↔ q.IsAbove p := by
  constructor
  · rintro ⟨rest, h⟩
    refine ⟨Text.split '.' rest, ?_, ?_⟩
    · simpa [Text.split] using Text.splitChars_ne_nil '.' rest.toList
    · rw [← hp.split_text, h, ← hq.split_text]
      exact Text.split_append '.' q.text rest
  · rintro ⟨rest, hr, h⟩
    exact ⟨joinDots rest, by rw [text, h, joinDots_append q.ne_nil hr, text]⟩

/-- The parents of a path are those above it. -/
theorem text_mem_parents_iff {p q : FieldPath} (hp : p.IsPlain) (hq : q.IsPlain) :
    q.text ∈ p.parents ↔ q.IsAbove p := by
  simp only [parents, List.mem_map, List.mem_range]
  constructor
  · rintro ⟨n, hn, h⟩
    refine ⟨p.segments.drop (n + 1), ?_, ?_⟩
    · simp; omega
    · have htake : p.segments.take (n + 1) ≠ [] := by simp [p.ne_nil]
      have hsplit := split_joinDots htake fun s hs => (hp s (List.mem_of_mem_take hs)).2
      rw [h, hq.split_text] at hsplit
      rw [hsplit, List.take_append_drop]
  · rintro ⟨rest, hr, h⟩
    have hq0 : 0 < q.segments.length := List.length_pos_of_ne_nil q.ne_nil
    have hr0 : 0 < rest.length := List.length_pos_of_ne_nil hr
    refine ⟨q.segments.length - 1, ?_, ?_⟩
    · rw [h, List.length_append]; omega
    · rw [h, Nat.sub_add_cancel hq0, List.take_left, text]

theorem IsAbove.length_lt {p q : FieldPath} (h : q.IsAbove p) :
    q.segments.length < p.segments.length := by
  obtain ⟨rest, hr, h⟩ := h
  rw [h, List.length_append]
  have := List.length_pos_of_ne_nil hr
  omega

end FieldPath

namespace Validator

/-- The validators there are: those that some builder made. -/
def IsBuilt (v : Validator) : Prop :=
  ∃ (b : Builder) (kind? : Option Kind) (field : String) (texts : List String),
    b.build kind? field texts = .ok v

theorem IsBuilt.plain {v : Validator} (h : v.IsBuilt) : v.path.IsPlain := by
  obtain ⟨b, kind?, field, texts, h⟩ := h
  exact FieldPath.plain_of_parse (Builder.of_build_eq_ok h).1

/-- A validator depends on the field of another exactly where that is written as the beginning of
its own up to a dot. -/
theorem mem_dependsOn_iff {v w : Validator} (hv : v.IsBuilt) (hw : w.IsBuilt) :
    w.field ∈ v.dependsOn ↔ IsDotPrefix w.field v.field :=
  (FieldPath.text_mem_parents_iff hv.plain hw.plain).trans
    (FieldPath.isDotPrefix_text_iff hv.plain hw.plain).symm

end Validator

namespace Builder

/-- The validators of the lines that can be built. -/
def validators (b : Builder) (lines : List (String × List String)) : List Validator :=
  lines.filterMap fun l => (b.rule l.1 l.2).toOption

theorem isBuilt_of_mem_validators {b : Builder} {lines : List (String × List String)}
    {v : Validator} (h : v ∈ b.validators lines) : v.IsBuilt := by
  obtain ⟨l, _, h⟩ := List.mem_filterMap.1 h
  cases hb : b.rule l.1 l.2 with
  | error e => simp [hb, Except.toOption] at h
  | ok w =>
    obtain rfl : w = v := by simpa [hb, Except.toOption] using h
    exact ⟨b, none, l.1, l.2, hb⟩

end Builder
end FieldRules

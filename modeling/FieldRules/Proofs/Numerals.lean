import FieldRules.Proofs.Walking
import FieldRules.Text.Blank

/-! Numerals behind signs. A text of digits behind an optional sign writes one number, which is read
if it fits 64 bits, and what is written for an integer is such a text. -/
namespace FieldRules.Text

/-- Digits behind an optional sign write the number. A minus sign may stand only where numbers are
signed. -/
inductive Writes (signed : Bool) : List Char → Int → Prop
  | digits {ds : List Char} (h : isNumeral ds = true) : Writes signed ds (digitsValue ds)
  | plus {ds : List Char} (h : isNumeral ds = true) : Writes signed ('+' :: ds) (digitsValue ds)
  | minus {ds : List Char} (hs : signed = true) (h : isNumeral ds = true) :
      Writes signed ('-' :: ds) (-digitsValue ds)

section
variable {cs : List Char} {n : Int}

theorem digits?_eq_some_iff {n : Nat} :
    digits? cs = some n ↔ isNumeral cs = true ∧ digitsValue cs = n := by
  unfold digits?
  split <;> simp_all

theorem ne_cons_of_isNumeral {c : Char} (h : isNumeral cs = true) (hc : c.isDigit = false)
    (ds : List Char) : cs ≠ c :: ds := by
  rintro rfl
  simp [isNumeral, hc] at h

/-- An unsigned numeral is read if it fits, and nothing else is. -/
theorem map_natural?_eq_some_iff :
    (natural? cs).map Int.ofNat = some n ↔
      Writes false cs n ∧ 0 ≤ n ∧ n ≤ 0xffffffffffffffff := by
  constructor
  · intro h
    obtain ⟨k, hk, rfl⟩ := Option.map_eq_some_iff.1 h
    unfold natural? at hk
    obtain ⟨hread, hfits⟩ := Option.filter_eq_some_iff.1 hk
    have hfits : k < 0x10000000000000000 := by simpa using hfits
    refine ⟨?_, Int.natCast_nonneg k, by simp; omega⟩
    split at hread
    · obtain ⟨hd, rfl⟩ := digits?_eq_some_iff.1 hread
      exact .plus hd
    · obtain ⟨hd, rfl⟩ := digits?_eq_some_iff.1 hread
      exact .digits hd
  · rintro ⟨h, hlow, hhigh⟩
    cases h with
    | digits hd =>
      rw [natural?_of_not_plus (ne_cons_of_isNumeral hd (by decide)),
        digits?_eq_some_iff.2 ⟨hd, rfl⟩, Option.filter_some_pos (by simp; omega)]
      rfl
    | plus hd =>
      rw [natural?_plus_of_lt (digits?_eq_some_iff.2 ⟨hd, rfl⟩) (by omega)]
      rfl
    | minus hs => simp at hs

theorem integer?_eq_of_writes (h : Writes true cs n) (hlow : -0x8000000000000000 ≤ n)
    (hhigh : n ≤ 0x7fffffffffffffff) : integer? cs = some (Int64.ofInt n) := by
  have hfits : (some n).filter (fun i : Int =>
      -0x8000000000000000 ≤ i ∧ i < 0x8000000000000000) = some n := by
    apply Option.filter_some_pos
    apply decide_eq_true
    omega
  unfold integer?
  cases h with
  | digits hd =>
    split
    · exact absurd rfl (ne_cons_of_isNumeral hd (by decide) _)
    · exact absurd rfl (ne_cons_of_isNumeral hd (by decide) _)
    · rw [digits?_eq_some_iff.2 ⟨hd, rfl⟩]
      exact congrArg (Option.map Int64.ofInt) hfits
  | plus hd =>
    simp only [digits?_eq_some_iff.2 ⟨hd, rfl⟩]
    exact congrArg (Option.map Int64.ofInt) hfits
  | minus _ hd =>
    simp only [digits?_eq_some_iff.2 ⟨hd, rfl⟩]
    exact congrArg (Option.map Int64.ofInt) hfits

/-- A signed numeral is read if it fits, and nothing else is. -/
theorem map_integer?_eq_some_iff :
    (integer? cs).map Int64.toInt = some n ↔
      Writes true cs n ∧ -0x8000000000000000 ≤ n ∧ n ≤ 0x7fffffffffffffff := by
  constructor
  · intro h
    obtain ⟨i, hi, rfl⟩ := Option.map_eq_some_iff.1 h
    unfold integer? at hi
    obtain ⟨m, hm, rfl⟩ := Option.map_eq_some_iff.1 hi
    obtain ⟨hread, hfits⟩ := Option.filter_eq_some_iff.1 hm
    obtain ⟨hlow, hhigh⟩ := of_decide_eq_true hfits
    rw [Int64.toInt_ofInt_of_le (by omega) (by omega)]
    refine ⟨?_, hlow, by omega⟩
    split at hread
    · obtain ⟨k, hk, rfl⟩ := Option.map_eq_some_iff.1 hread
      obtain ⟨hd, rfl⟩ := digits?_eq_some_iff.1 hk
      exact .plus hd
    · obtain ⟨k, hk, rfl⟩ := Option.map_eq_some_iff.1 hread
      obtain ⟨hd, rfl⟩ := digits?_eq_some_iff.1 hk
      exact .minus rfl hd
    · obtain ⟨k, hk, rfl⟩ := Option.map_eq_some_iff.1 hread
      obtain ⟨hd, rfl⟩ := digits?_eq_some_iff.1 hk
      exact .digits hd
  · rintro ⟨h, hlow, hhigh⟩
    rw [integer?_eq_of_writes h hlow hhigh, Option.map_some,
      Int64.toInt_ofInt_of_le (by omega) (by omega)]

theorem isNumeral_toString (n : Nat) :
    isNumeral (toString n).toList = true ∧ digitsValue (toString n).toList = n :=
  digits?_eq_some_iff.1 (digits?_toString n)

/-- What is written for an integer is a numeral of it. -/
theorem writes_toString (n : Int) : Writes true (toString n).toList n := by
  cases n with
  | ofNat k =>
    obtain ⟨hd, hk⟩ := isNumeral_toString k
    have hw : Writes true _ _ := .digits hd
    rwa [hk] at hw
  | negSucc k =>
    obtain ⟨hd, hk⟩ := isNumeral_toString (k + 1)
    have hw := Writes.minus rfl hd
    rw [hk] at hw
    have htext : (toString (Int.negSucc k)).toList = '-' :: (toString (k + 1)).toList := by
      rw [show toString (Int.negSucc k) = "-" ++ toString (k + 1) from rfl, String.toList_append]
      rfl
    rw [htext]
    exact hw

theorem integer?_toString (i : Int64) : integer? (toString i.toInt).toList = some i := by
  have hlow := i.le_toInt
  have hhigh := i.toInt_lt
  rw [integer?_eq_of_writes (writes_toString _) (by omega) (by omega), Int64.ofInt_toInt]

theorem isBlank_of_isDigit {c : Char} (h : c.isDigit = true) : isBlank c = false := by
  simp only [Char.isDigit, Bool.and_eq_true, decide_eq_true_eq] at h
  obtain ⟨hlow, hhigh⟩ := h
  have hlow : 48 ≤ c.toNat := hlow
  have hhigh : c.toNat ≤ 57 := hhigh
  simp only [isBlank, blankRanges, List.any_cons, List.any_nil, Bool.or_false,
    Bool.or_eq_false_iff, Bool.and_eq_false_iff, decide_eq_false_iff_not]
  omega

theorem trimChars_eq_self {cs : List Char} (h : ∀ c ∈ cs, isBlank c = false) :
    trimChars cs = cs := by
  have hkeep : ∀ ds : List Char, (∀ c ∈ ds, isBlank c = false) → ds.dropWhile isBlank = ds := by
    intro ds hds
    cases ds with
    | nil => rfl
    | cons d ds => rw [List.dropWhile_cons_of_neg (by simp [hds d List.mem_cons_self])]
  unfold trimChars dropBlanksEnd
  rw [hkeep cs h, hkeep cs.reverse (by simpa using h), List.reverse_reverse]

theorem Writes.isDigit_or_sign {signed : Bool} (h : Writes signed cs n) {c : Char} (hc : c ∈ cs) :
    c.isDigit = true ∨ c = '+' ∨ c = '-' := by
  have hdigits : ∀ {ds : List Char}, isNumeral ds = true → ∀ d ∈ ds, d.isDigit = true := by
    intro ds hd
    simp only [isNumeral, Bool.and_eq_true, List.all_eq_true] at hd
    exact hd.2
  cases h with
  | digits hd => exact .inl (hdigits hd c hc)
  | plus hd =>
    rcases List.mem_cons.1 hc with rfl | hc
    · exact .inr (.inl rfl)
    · exact .inl (hdigits hd c hc)
  | minus _ hd =>
    rcases List.mem_cons.1 hc with rfl | hc
    · exact .inr (.inr rfl)
    · exact .inl (hdigits hd c hc)

theorem Writes.ne_nil {signed : Bool} (h : Writes signed cs n) : cs ≠ [] := by
  cases h with
  | digits hd =>
    rintro rfl
    simp [isNumeral] at hd
  | plus => simp
  | minus => simp

/-- There are no blanks in a numeral. -/
theorem Writes.trimChars_eq {signed : Bool} (h : Writes signed cs n) : trimChars cs = cs := by
  apply trimChars_eq_self
  intro c hc
  rcases h.isDigit_or_sign hc with hd | rfl | rfl
  · exact isBlank_of_isDigit hd
  · decide
  · decide

end
end FieldRules.Text

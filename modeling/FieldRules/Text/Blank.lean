/-! Blank characters are those with the Unicode property White_Space; trimming removes them from
both ends of a text. -/
namespace FieldRules.Text

/-- The code points of White_Space as ranges, both ends included. -/
def blankRanges : List (Nat × Nat) :=
  [(0x09, 0x0d), (0x20, 0x20), (0x85, 0x85), (0xa0, 0xa0), (0x1680, 0x1680), (0x2000, 0x200a),
   (0x2028, 0x2029), (0x202f, 0x202f), (0x205f, 0x205f), (0x3000, 0x3000)]

def isBlank (c : Char) : Bool := blankRanges.any fun r => r.1 ≤ c.toNat && c.toNat ≤ r.2

def dropBlanksEnd (cs : List Char) : List Char := (cs.reverse.dropWhile isBlank).reverse

def trimChars (cs : List Char) : List Char := dropBlanksEnd (cs.dropWhile isBlank)

def trim (s : String) : String := String.ofList (trimChars s.toList)

@[simp] theorem toList_trim (s : String) : (trim s).toList = trimChars s.toList := by simp [trim]

@[simp] theorem dropBlanksEnd_nil : dropBlanksEnd [] = [] := rfl

theorem dropBlanksEnd_cons (c : Char) (cs : List Char) :
    dropBlanksEnd (c :: cs) =
      if dropBlanksEnd cs = [] ∧ isBlank c = true then [] else c :: dropBlanksEnd cs := by
  simp only [dropBlanksEnd, List.reverse_cons, List.reverse_eq_nil_iff]
  generalize cs.reverse = r
  induction r with
  | nil => by_cases h : isBlank c <;> simp [h]
  | cons d r ih => by_cases h : isBlank d <;> simp [h, ih]

theorem dropWhile_dropBlanksEnd {cs : List Char} (h : cs.dropWhile isBlank = cs) :
    (dropBlanksEnd cs).dropWhile isBlank = dropBlanksEnd cs := by
  cases cs with
  | nil => rfl
  | cons c cs =>
    have hc : isBlank c = false := by
      cases hb : isBlank c with
      | false => rfl
      | true =>
        have := (List.dropWhile_sublist isBlank (l := cs)).length_le
        have := congrArg List.length h
        simp [hb] at this
        omega
    simp [dropBlanksEnd_cons, hc]

theorem dropBlanksEnd_dropBlanksEnd (cs : List Char) :
    dropBlanksEnd (dropBlanksEnd cs) = dropBlanksEnd cs := by
  induction cs with
  | nil => rfl
  | cons c cs ih => rw [dropBlanksEnd_cons]; split <;> simp_all [dropBlanksEnd_cons]

/-- Trimming a trimmed text changes nothing. -/
theorem trimChars_trimChars (cs : List Char) : trimChars (trimChars cs) = trimChars cs := by
  have h : (cs.dropWhile isBlank).dropWhile isBlank = cs.dropWhile isBlank := by
    induction cs with
    | nil => rfl
    | cons c cs ih => by_cases hc : isBlank c <;> simp [hc, ih]
  rw [trimChars, trimChars, dropWhile_dropBlanksEnd h, dropBlanksEnd_dropBlanksEnd]

@[simp] theorem trim_trim (s : String) : trim (trim s) = trim s := by
  simp [trim, trimChars_trimChars]

example : trim "\u00a0 a b\u3000\n" = "a b" := by decide

/-- The zero width space is not blank. -/
example : isBlank '\u200b' = false := by decide

end FieldRules.Text

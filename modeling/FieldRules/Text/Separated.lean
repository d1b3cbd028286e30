/-! Texts cut into parts at a separator. Where a separator may also stand in a part it is doubled
there, and `joinEscaped` writes what `splitEscaped` reads. -/
namespace FieldRules.Text

/-- Puts a character in front of the first part. -/
def consFirst (c : Char) : List (List Char) → List (List Char)
  | [] => [[c]]
  | part :: parts => (c :: part) :: parts

/-- Cuts at every separator. -/
def splitChars (sep : Char) : List Char → List (List Char)
  | [] => [[]]
  | c :: cs => if c = sep then [] :: splitChars sep cs else consFirst c (splitChars sep cs)

/-- Cuts at every separator that stands alone, reading from the left; a doubled one is a character
of its part. -/
def splitEscapedChars (sep : Char) : List Char → List (List Char)
  | [] => [[]]
  | [c] => if c = sep then [[], []] else [[c]]
  | c :: d :: cs =>
    if c = sep then
      if d = sep then consFirst sep (splitEscapedChars sep cs)
      else [] :: splitEscapedChars sep (d :: cs)
    else consFirst c (splitEscapedChars sep (d :: cs))

def escapeChars (sep : Char) : List Char → List Char
  | [] => []
  | c :: cs => if c = sep then sep :: sep :: escapeChars sep cs else c :: escapeChars sep cs

def joinEscapedChars (sep : Char) : List (List Char) → List Char
  | [] => []
  | [part] => escapeChars sep part
  | part :: parts => escapeChars sep part ++ sep :: joinEscapedChars sep parts

def split (sep : Char) (s : String) : List String := (splitChars sep s.toList).map String.ofList

def splitEscaped (sep : Char) (s : String) : List String :=
  (splitEscapedChars sep s.toList).map String.ofList

def joinEscaped (sep : Char) (parts : List String) : String :=
  String.ofList (joinEscapedChars sep (parts.map String.toList))

/-- Cuts at the first separator, if there is one. -/
def splitOnce? (sep : Char) (cs : List Char) : Option (List Char × List Char) :=
  match cs.dropWhile (· ≠ sep) with
  | [] => none
  | _ :: rest => some (cs.takeWhile (· ≠ sep), rest)

/-- How many characters were read off the text to leave the rest. -/
def taken (cs rest : List Char) : Nat := cs.length - rest.length

theorem splitChars_ne_nil (sep : Char) (cs : List Char) : splitChars sep cs ≠ [] := by
  fun_induction splitChars sep cs <;> simp_all [consFirst]
  split <;> simp

theorem splitEscapedChars_ne_nil (sep : Char) (cs : List Char) : splitEscapedChars sep cs ≠ [] := by
  fun_induction splitEscapedChars sep cs <;> simp_all [consFirst] <;> split <;> simp

example : splitEscaped ':' "REG:a:::X" = ["REG", "a:", "X"] := by decide
example : joinEscaped ':' ["REG", "a:", "X"] = "REG:a:::X" := by decide

end FieldRules.Text

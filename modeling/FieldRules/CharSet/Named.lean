import FieldRules.CharSet.Letter
import FieldRules.Text.Blank

/-! The sets of characters that have names in patterns. -/
namespace FieldRules.CharSet

def blanks : CharSet := ⟨Text.blankRanges⟩

/-- Every character but the end of a line. -/
def noLineEnd : CharSet := (one '\n').complement

/-- The sets of ASCII characters by their names. -/
def named? : String → Option CharSet
  | "alnum" => some ⟨[(0x30, 0x39), (0x41, 0x5a), (0x61, 0x7a)]⟩
  | "alpha" => some ⟨[(0x41, 0x5a), (0x61, 0x7a)]⟩
  | "ascii" => some ⟨[(0x00, 0x7f)]⟩
  | "blank" => some ⟨[(0x09, 0x09), (0x20, 0x20)]⟩
  | "cntrl" => some ⟨[(0x00, 0x1f), (0x7f, 0x7f)]⟩
  | "digit" => some (between '0' '9')
  | "graph" => some ⟨[(0x21, 0x7e)]⟩
  | "lower" => some (between 'a' 'z')
  | "print" => some ⟨[(0x20, 0x7e)]⟩
  | "punct" => some ⟨[(0x21, 0x2f), (0x3a, 0x40), (0x5b, 0x60), (0x7b, 0x7e)]⟩
  | "space" => some ⟨[(0x09, 0x0d), (0x20, 0x20)]⟩
  | "upper" => some (between 'A' 'Z')
  | "word" => some ⟨[(0x30, 0x39), (0x41, 0x5a), (0x5f, 0x5f), (0x61, 0x7a)]⟩
  | "xdigit" => some ⟨[(0x30, 0x39), (0x41, 0x46), (0x61, 0x66)]⟩
  | _ => none

end FieldRules.CharSet

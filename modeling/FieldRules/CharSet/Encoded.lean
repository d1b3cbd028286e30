import FieldRules.CharSet.Named

/-! The characters of a set as they are encoded in UTF-8: sequences of ranges of bytes, each for the
characters whose bytes lie in the ranges. -/
namespace FieldRules.CharSet

abbrev ByteRange := Nat × Nat

/-- The continuation bytes hold the digits of a number to base 64; `n` of them follow a leading
digit. The numbers from `a` to `b`, cut where a leading digit does not go with all continuations. -/
def digitRanges (lead : Nat) : Nat → Nat → Nat → List (List ByteRange)
  | 0, a, b => [[(lead + a, lead + b)]]
  | n + 1, a, b =>
    let m := Nat.pow 64 (n + 1)
    let under (d a b : Nat) := (digitRanges 0x80 n a b).map ((lead + d, lead + d) :: ·)
    if a / m = b / m then under (a / m) (a % m) (b % m)
    else
      let low := if a % m = 0 then [] else under (a / m) (a % m) (m - 1)
      let high := if b % m = m - 1 then [] else under (b / m) 0 (b % m)
      let first := if a % m = 0 then a / m else a / m + 1
      let last := if b % m = m - 1 then b / m else b / m - 1
      let whole := if first ≤ last then
          [(lead + first, lead + last) :: List.replicate (n + 1) (0x80, 0xbf)]
        else []
      low ++ whole ++ high

/-- The code points of one length: the first and the last, the mark of the leading byte and the
number of continuation bytes. Surrogates have no encoding. -/
def encodings : List (Nat × Nat × Nat × Nat) :=
  [(0x00, 0x7f, 0x00, 0), (0x80, 0x7ff, 0xc0, 1), (0x800, 0xd7ff, 0xe0, 2),
   (0xe000, 0xffff, 0xe0, 2), (0x10000, maxCode, 0xf0, 3)]

def encodedRange (a b : Nat) : List (List ByteRange) :=
  encodings.flatMap fun (first, last, lead, n) =>
    if max a first ≤ min b last then digitRanges lead n (max a first) (min b last) else []

def encoded (s : CharSet) : List (List ByteRange) := s.ranges.flatMap fun r => encodedRange r.1 r.2

/-- Sequences that begin alike stand together. -/
def branches : List (List ByteRange) → List (ByteRange × List (List ByteRange))
  | [] => []
  | [] :: rests => branches rests
  | (b :: rest) :: rests =>
    match branches rests with
    | [] => [(b, [rest])]
    | (c, group) :: others =>
      if b = c then (b, rest :: group) :: others else (b, [rest]) :: (c, group) :: others

example : (between 'a' 'é').encoded =
    [[(0x61, 0x7f)], [(0xc2, 0xc2), (0x80, 0xbf)], [(0xc3, 0xc3), (0x80, 0xa9)]] := by
  decide +kernel
example : noLineEnd.encoded.length = 10 := by decide +kernel

end FieldRules.CharSet

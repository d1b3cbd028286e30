/-! Sets of characters as ranges of code points, in rising order and apart from each other. -/
namespace FieldRules

structure CharSet where
  ranges : List (Nat × Nat)
  deriving DecidableEq, Repr

namespace CharSet

def maxCode : Nat := 0x10ffff

def containsCode (s : CharSet) (n : Nat) : Bool := s.ranges.any fun r => r.1 ≤ n && n ≤ r.2

def contains (s : CharSet) (c : Char) : Bool := s.containsCode c.toNat

def empty : CharSet := ⟨[]⟩
def one (c : Char) : CharSet := ⟨[(c.toNat, c.toNat)]⟩

/-- The characters from one to another, both included. -/
def between (a b : Char) : CharSet := ⟨[(a.toNat, b.toNat)]⟩

/-- The one character of the set. -/
def only? (s : CharSet) : Option Char :=
  match s.ranges with
  | [(a, b)] => if a = b then some (Char.ofNat a) else none
  | _ => none

/-- Ranges that meet or overlap become one. -/
def addRange (a b : Nat) : List (Nat × Nat) → List (Nat × Nat)
  | [] => [(a, b)]
  | (c, d) :: rs =>
    if b + 1 < c then (a, b) :: (c, d) :: rs
    else if d + 1 < a then (c, d) :: addRange a b rs
    else addRange (min a c) (max b d) rs

def union (s t : CharSet) : CharSet := ⟨s.ranges.foldr (fun r => addRange r.1 r.2) t.ranges⟩

/-- The next code point of a character: surrogates are none. -/
def after (n : Nat) : Nat := if n = 0xd7ff then 0xe000 else n + 1

def before (n : Nat) : Nat := if n = 0xe000 then 0xd7ff else n - 1

/-- The gaps behind a range that ends with `b`. Between ranges that end in front of the surrogates
and begin behind them the gap is these two ends. -/
def gapsAfter (b : Nat) : List (Nat × Nat) → List (Nat × Nat)
  | [] => if b < maxCode then [(after b, maxCode)] else []
  | (c, d) :: rs => (min (after b) (before c), max (after b) (before c)) :: gapsAfter d rs

def complement (s : CharSet) : CharSet :=
  match s.ranges with
  | [] => ⟨[(0, maxCode)]⟩
  | (a, b) :: rs => ⟨(if a = 0 then [] else [(0, before a)]) ++ gapsAfter b rs⟩

/-- What is left of a range when others are cut out of it. -/
def cut (a b : Nat) : List (Nat × Nat) → List (Nat × Nat)
  | [] => [(a, b)]
  | (c, d) :: rs =>
    if d < a then cut a b rs
    else if b < c then [(a, b)]
    else (if a < c then [(a, before c)] else []) ++ if d < b then cut (after d) b rs else []

def inter (s t : CharSet) : CharSet :=
  ⟨s.ranges.flatMap fun r => t.ranges.filterMap fun q =>
    if max r.1 q.1 ≤ min r.2 q.2 then some (max r.1 q.1, min r.2 q.2) else none⟩

def diff (s t : CharSet) : CharSet := ⟨s.ranges.flatMap fun r => cut r.1 r.2 t.ranges⟩
def symmDiff (s t : CharSet) : CharSet := (s.union t).diff (s.inter t)

def all : CharSet := empty.complement

example : (between 'a' 'f').union (between 'd' 'k') = between 'a' 'k' := by decide
example : (between 'a' 'f').inter (between 'd' 'k') = between 'd' 'f' := by decide
example : (between 'a' 'k').diff (between 'd' 'f') = ⟨[(0x61, 0x63), (0x67, 0x6b)]⟩ := by decide
example : (between 'a' 'c').complement.complement = between 'a' 'c' := by decide

end CharSet
end FieldRules

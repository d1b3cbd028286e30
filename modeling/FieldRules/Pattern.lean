import FieldRules.CharSet.Named

/-! Patterns that a text may contain: regular expressions over characters with anchors. -/
namespace FieldRules

inductive Anchor
  | textStart
  | textEnd
  | lineStart
  | lineEnd
  | wordBoundary
  | noWordBoundary
  | wordStart
  | wordEnd
  | noWordBefore
  | noWordAfter
  deriving DecidableEq, Repr

/-- Groups are patterns in parentheses whose occurrences are remembered under a number. Lazy
repetitions prefer few turns, which does not change where the pattern occurs. -/
inductive Pattern
  | empty
  | text (cs : List Char)
  | char (s : CharSet)
  | anchor (a : Anchor)
  | group (number : Nat) (p : Pattern)
  | seq (p q : Pattern)
  | either (p q : Pattern)
  | repeated (p : Pattern) (least : Nat) (most : Option Nat) (isLazy : Bool)
  deriving DecidableEq, Repr

namespace Anchor

def isWordChar (c : Option Char) : Bool := c.any CharSet.words.contains

/-- The anchor holds between these two characters; there is none beyond the ends of the text. -/
def holds (a : Anchor) (before after : Option Char) : Bool :=
  match a with
  | textStart => before.isNone
  | textEnd => after.isNone
  | lineStart => before.all (· == '\n')
  | lineEnd => after.all (· == '\n')
  | wordBoundary => isWordChar before != isWordChar after
  | noWordBoundary => isWordChar before == isWordChar after
  | wordStart => !isWordChar before && isWordChar after
  | wordEnd => isWordChar before && !isWordChar after
  | noWordBefore => !isWordChar before
  | noWordAfter => !isWordChar after

end Anchor

/-- Sets of positions in a text, as the bits of a number. -/
abbrev Positions := Nat

namespace Positions

def ofBools : List Bool → Positions
  | [] => 0
  | b :: bs => 2 * ofBools bs + b.toNat

/-- The positions in front of a character of the set. -/
def atChar (text : List Char) (s : CharSet) : Positions := ofBools (text.map s.contains)

/-- The positions at which the anchor holds, with the character before the first one. -/
def atAnchor (a : Anchor) (before : Option Char) : List Char → Positions
  | [] => (a.holds before none).toNat
  | c :: cs => 2 * atAnchor a (some c) cs + (a.holds before (some c)).toNat

/-- All positions, with that behind the last character. -/
def all (text : List Char) : Positions := 1 <<< (text.length + 1) - 1

def repeatTimes (f : Positions → Positions) : Nat → Positions → Positions
  | 0, s => s
  | n + 1, s => repeatTimes f n (f s)

/-- The positions reached by up to `n` steps. Once a step adds none, no later one does. -/
def repeatUpTo (f : Positions → Positions) : Nat → Positions → Positions
  | 0, s => s
  | n + 1, s =>
    let next := s ||| f s
    if next = s then s else repeatUpTo f n next

end Positions

/-- A pattern laid over one text: at which positions its characters and anchors fit. -/
inductive Overlay
  | empty
  | step (fits : Positions)
  | stay (fits : Positions)
  | seq (p q : Overlay)
  | either (p q : Overlay)
  | repeated (p : Overlay) (least : Nat) (most : Option Nat)
  deriving DecidableEq, Repr

/-- Where the occurrences end that begin at the positions. In a text of `n` characters at most `n`
repetitions move ahead; those that stay add nothing, so one more is enough. -/
def Overlay.ends (n : Nat) : Overlay → Positions → Positions
  | empty, s => s
  | step fits, s => (s &&& fits) <<< 1
  | stay fits, s => s &&& fits
  | seq p q, s => q.ends n (p.ends n s)
  | either p q, s => p.ends n s ||| q.ends n s
  | repeated p least most, s =>
    let must := Positions.repeatTimes (p.ends n) (min least (n + 1)) s
    match most with
    | none => Positions.repeatUpTo (p.ends n) n must
    | some most => Positions.repeatUpTo (p.ends n) (min (most - least) n) must

/-- A fixed text laid over another. -/
def Overlay.ofText (text : List Char) : List Char → Overlay
  | [] => .empty
  | c :: cs => .seq (.step (.atChar text (.one c))) (ofText text cs)

namespace Pattern

def overlay (text : List Char) : Pattern → Overlay
  | empty => .empty
  | .text cs => .ofText text cs
  | char s => .step (.atChar text s)
  | anchor a => .stay (.atAnchor a none text)
  | group _ p => p.overlay text
  | seq p q => .seq (p.overlay text) (q.overlay text)
  | either p q => .either (p.overlay text) (q.overlay text)
  | repeated p least most _ => .repeated (p.overlay text) least most

/-- The pattern occurs somewhere in the text. -/
def occursIn (p : Pattern) (text : String) : Bool :=
  (p.overlay text.toList).ends text.toList.length (.all text.toList) != 0

end Pattern
end FieldRules

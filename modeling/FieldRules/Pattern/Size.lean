import FieldRules.Pattern.Automaton
import FieldRules.Pattern.Simple

/-! The size of a pattern is that of the automata built for it, one for each direction: neither may be
too large. -/
namespace FieldRules.Pattern

/-- Every occurrence begins with the anchor, or ends with it when read backwards. -/
def bound (a : Anchor) (d : Direction) : Pattern → Bool
  | anchor b => a = b
  | group _ p => p.bound a d
  | seq p q =>
    match d with
    | .forward => p.bound a d || (p.zeroWidth && q.bound a d)
    | .backward => q.bound a d || (q.zeroWidth && p.bound a d)
  | either p q => p.bound a d && q.bound a d
  | repeated p least _ _ => 0 < least && p.bound a d
  | _ => false

/-- The least number of characters that an occurrence has; none is known with an empty set inside. -/
def leastLength : Pattern → Option Nat
  | empty => some 0
  | text cs => some cs.length
  | char s => if s.ranges.isEmpty then none else some 1
  | anchor _ => some 0
  | group _ p => p.leastLength
  | seq p q =>
    match p.leastLength, q.leastLength with
    | some m, some n => some (m + n)
    | _, _ => none
  | either p q =>
    match p.leastLength, q.leastLength with
    | some m, some n => some (min m n)
    | _, _ => none
  | repeated p least _ _ => p.leastLength.map (least * ·)

/-- The bytes of a text, first those that are read first. -/
def bytes? (d : Direction) : Pattern → Option (List UInt8)
  | text cs =>
    let bytes := cs.flatMap String.utf8EncodeChar
    some (match d with
      | .forward => bytes
      | .backward => bytes.reverse)
  | _ => none

/-- The ways to an alternative, with states in front and behind that come with the second one. -/
def join (alternative : Nat) (a : Automaton) : Automaton :=
  match alternative with
  | 0 => a
  | 1 => a.grow 2 8
  | _ => a.grow 0 4

/-- Builds the pattern onto an automaton. It may be an alternative of another pattern, or what is left
of the alternatives, with as many in front of it. -/
def build (d : Direction) (alternative : Nat) : Pattern → Automaton → Automaton
  | empty, a => join alternative (a.grow 1 0)
  | text cs, a => join alternative (a.grow (cs.map Char.utf8Size).sum 0)
  | char s, a => join alternative (a.set d s)
  | anchor _, a => join alternative (a.grow 1 0)
  | group _ p, a =>
    join alternative (match d with
      | .forward => (p.build d 0 (a.grow 1 0)).grow 1 0
      | .backward => p.build d 0 a)
  | seq p q, a =>
    join alternative (match d with
      | .forward => q.build d 0 (p.build d 0 a)
      | .backward => p.build d 0 (q.build d 0 a))
  | either p q, a =>
    match if alternative = 0 then (p.alternatives ++ q.alternatives).mapM (bytes? d) else none with
    | some texts => a.texts texts
    | none => q.build d (alternative + 1) (p.build d alternative a)
  | repeated p least most _, a =>
    join alternative (a.repeated (p.build d 0) (p.leastLength.any (0 < ·)) least most)

/-- The automaton of a pattern. Any bytes may be skipped before an occurrence, unless an anchor forbids
it; the whole occurrence is a group. -/
def automaton (d : Direction) (p : Pattern) : Automaton :=
  let limit := match d with
    | .forward => .textStart
    | .backward => .textEnd
  ((group 0 p).build d 0 (if p.bound limit d then ⟨1, 0⟩ else ⟨3, 16⟩)).grow 1 0

def fits (p : Pattern) : Bool := (p.automaton .forward).fits && (p.automaton .backward).fits

example : ((repeated (text ['a']) 3 (some 3) false).automaton .forward).size = 9 * 32 + 16 := by
  decide +kernel
example : ((either (text ['a', 'b']) (text ['c'])).automaton .backward).size = 9 * 32 + 40 := by
  decide +kernel

end FieldRules.Pattern

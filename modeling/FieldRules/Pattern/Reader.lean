import FieldRules.Pattern.Beginning
import FieldRules.Pattern.Bracket
import FieldRules.Pattern.Size

/-! Reading patterns from text. Characters stand for themselves but for `\ . ^ $ | ( ) [ * + ? {`.
Patterns that are nested too deep or too large are refused. -/
namespace FieldRules.Pattern
open Text

/-- Flags up to the mark that ends them; those behind a minus sign are switched off. The letters
that were set so far come with the call, for none may be repeated. -/
def flags? (f : Flags) (on : Bool) (seen : List Char) : List Char → Piece (Flags × List Char × Char)
  | [] => none
  | c :: cs =>
    if c = ':' ∨ c = ')' then
      if seen.head? = some '-' then none else some ((f, seen, c), cs)
    else if c ∈ seen then none
    else match c with
      | '-' => flags? f false (c :: seen) cs
      | 'i' => flags? { f with ignoreCase := on } on (c :: seen) cs
      | 'm' => flags? { f with multiLine := on } on (c :: seen) cs
      | 's' => flags? { f with dotAll := on } on (c :: seen) cs
      | 'U' => flags? { f with swapLazy := on } on (c :: seen) cs
      | _ => none

def isNameStart (c : Char) : Bool := c == '_' || CharSet.nameLetters.contains c

def isNameChar (c : Char) : Bool :=
  isNameStart c || CharSet.nameNumbers.contains c || c == '.' || c == '[' || c == ']'

/-- The name of a group up to its angle bracket. -/
def groupName? (cs : List Char) : Piece String :=
  let name := cs.takeWhile (· ≠ '>')
  match name, cs.dropWhile (· ≠ '>') with
  | c :: _, _ :: rest =>
    if isNameStart c && name.all isNameChar then some (String.ofList name, rest) else none
  | _, _ => none

/-- A group or a setting of flags, from behind the opening parenthesis. -/
def group? (f : Flags) : List Char → Piece Element
  | '?' :: 'P' :: '<' :: cs => (groupName? cs).map fun p => (.opening (.named p.1) f, p.2)
  | '?' :: '<' :: cs => (groupName? cs).map fun p => (.opening (.named p.1) f, p.2)
  | '?' :: cs =>
    match flags? f true [] cs with
    | some ((g, _, ':'), rest) => some (.opening .plain g, rest)
    | some ((g, _ :: _, _), rest) => some (.flags g, rest)
    | _ => none
  | cs => some (.opening .numbered f, cs)

/-- A decimal number below `2 ^ 32` with blanks around it, if there is one. -/
def count (cs : List Char) : Option Nat × List Char :=
  let cs := cs.dropWhile isBlank
  ((digits? (cs.takeWhile Char.isDigit)).filter (· < 0x100000000),
    (cs.dropWhile Char.isDigit).dropWhile isBlank)

/-- The counts of a repetition, from behind the opening brace. -/
def counts? (cs : List Char) : Piece (Nat × Option Nat) :=
  match count cs with
  | (some n, '\x7d' :: rest) => some ((n, some n), rest)
  | (some n, ',' :: '\x7d' :: rest) => some ((n, none), rest)
  | (some n, ',' :: rest) =>
    match count rest with
    | (some m, '\x7d' :: rest) => if n ≤ m then some ((n, some m), rest) else none
    | _ => none
  | _ => none

/-- A repetition with these counts; a question mark behind it makes it lazy. -/
def quantifier (f : Flags) (least : Nat) (most : Option Nat) : List Char → Element × List Char
  | '?' :: cs => (.quantifier least most !f.swapLazy, cs)
  | cs => (.quantifier least most f.swapLazy, cs)

/-- The element that begins with a character. -/
def element? (f : Flags) (c : Char) (cs : List Char) : Piece Element :=
  match c with
  | '\\' => escape? cs
  | '.' => some (.dot, cs)
  | '^' => some (.lineStart, cs)
  | '$' => some (.lineEnd, cs)
  | '|' => some (.bar, cs)
  | '[' => bracket? f cs
  | '(' => group? f cs
  | ')' => some (.closing, cs)
  | '*' => some (quantifier f 0 none cs)
  | '+' => some (quantifier f 1 none cs)
  | '?' => some (quantifier f 0 (some 1) cs)
  | '{' => (counts? cs).map fun p => quantifier f p.1.1 p.1.2 p.2
  | c => some (.char c, cs)

/-- A pattern, and how deep it is nested. -/
structure Nested where
  pattern : Pattern
  depth : Nat

/-- Several parts count as nested in what they make up. -/
def Nested.join (f : List Pattern → Pattern) (ps : List Nested) : Nested :=
  ⟨f (ps.map (·.pattern)), match ps with
    | [] => 0
    | [p] => p.depth
    | ps => (ps.map (·.depth)).foldl max 0 + 1⟩

/-- The alternatives that are read, and the items of the one at hand, both last first. A setting of
flags is an item that cannot be repeated. -/
structure Branches where
  done : List Nested := []
  items : List (Nested × Bool) := []

namespace Branches

def last (b : Branches) : Nested := .join sequence (b.items.reverse.map (·.1))

def whole (b : Branches) : Nested := .join choice (b.last :: b.done).reverse

def push (b : Branches) (p : Nested) (repeatable : Bool) : Branches :=
  { b with items := (p, repeatable) :: b.items }

end Branches

/-- A group that is open, by its number if it is remembered, and what comes back behind it. -/
structure OpenGroup where
  number : Option Nat
  flags : Flags
  branches : Branches

/-- A pattern that is read up to some point, with the groups that are open there, innermost first. -/
structure Reading where
  flags : Flags := {}
  here : Branches := {}
  outside : List OpenGroup := []
  names : List String := []
  groups : Nat := 0

namespace Reading

def push (r : Reading) (p : Pattern) (depth : Nat) : Reading :=
  { r with here := r.here.push ⟨p, depth⟩ true }

/-- Inside a group that opens. -/
def enter (r : Reading) (number : Option Nat) (flags : Flags) : Reading :=
  { r with flags := flags, here := {}, outside := ⟨number, r.flags, r.here⟩ :: r.outside }

/-- Inside a group that is remembered. -/
def enterNext (r : Reading) (flags : Flags) : Reading :=
  { r with groups := r.groups + 1 }.enter (some (r.groups + 1)) flags

def add (r : Reading) : Element → Option Reading
  | .char c => some (r.push (ofSet (r.flags.close (.one c))) 0)
  | .set s depth => some (r.push (ofSet s) depth)
  | .dot => some (r.push (ofSet (if r.flags.dotAll then .all else .noLineEnd)) 0)
  | .lineStart => some (r.push (.anchor (if r.flags.multiLine then .lineStart else .textStart)) 0)
  | .lineEnd => some (r.push (.anchor (if r.flags.multiLine then .lineEnd else .textEnd)) 0)
  | .anchor a => some (r.push (.anchor a) 0)
  | .bar => some { r with here := { done := r.here.last :: r.here.done } }
  | .opening kind flags =>
    match kind with
    | .plain => some (r.enter none flags)
    | .numbered => some (r.enterNext flags)
    | .named n =>
      if n ∈ r.names then none else some ({ r with names := n :: r.names }.enterNext flags)
  | .closing =>
    match r.outside with
    | [] => none
    | g :: outside =>
      let p := r.here.whole
      let inner := match g.number with
        | none => p.pattern
        | some n => .group n p.pattern
      some { r with
        flags := g.flags, here := g.branches.push ⟨inner, p.depth + 1⟩ true, outside := outside }
  | .flags flags => some { r with flags := flags, here := r.here.push ⟨.empty, 0⟩ false }
  | .quantifier least most isLazy =>
    match r.here.items with
    | (p, true) :: items =>
      some { r with here := { r.here with
        items := (⟨p.pattern.times least most isLazy, p.depth + 1⟩, true) :: items } }
    | _ => none

/-- Reads on, after the characters that an element has already taken. -/
def read (r : Reading) : Nat → List Char → Option Reading
  | _, [] => some r
  | n + 1, _ :: cs => r.read n cs
  | 0, c :: cs =>
    match element? r.flags c cs with
    | none => none
    | some (e, rest) =>
      match r.add e with
      | none => none
      | some r => r.read (taken cs rest) cs

end Reading

/-- Patterns may be nested up to this depth. -/
def maxDepth : Nat := 250

def ofText? (s : String) : Option Pattern :=
  match ({} : Reading).read 0 s.toList with
  | some r =>
    let p := r.here.whole
    if r.outside.isEmpty && p.depth ≤ maxDepth && (p.pattern.fits || p.pattern.isFixed) then
      some p.pattern
    else none
  | none => none

example : (ofText? "a{2,1}").isNone ∧ (ofText? "[z-a]").isNone ∧ (ofText? "(?=a)").isNone := by
  decide +kernel
example : (ofText? "^(?P<n>x|y)+?$").any (·.occursIn "xyx") = true := by decide +kernel

end Pattern

/-- What reads patterns: it refuses a text, or tells in which texts the pattern occurs. -/
abbrev PatternEngine := String → Option (String → Bool)

/-- The patterns of this library. Other engines may read more of them: sets of characters by
their Unicode properties, as in `\p{Greek}`, and the flags `x`, `u` and `R` are refused here. -/
def Pattern.engine : PatternEngine := fun s => (Pattern.ofText? s).map Pattern.occursIn

end FieldRules

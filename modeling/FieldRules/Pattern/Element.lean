import FieldRules.CharSet.CaseFold
import FieldRules.Pattern
import FieldRules.Text.Numeral
import FieldRules.Text.Separated

/-! The pieces that the text of a pattern consists of, and those that begin with a backslash. -/
namespace FieldRules.Pattern
open Text

/-- How characters, points, line anchors and repetitions are meant. -/
structure Flags where
  ignoreCase : Bool := false
  multiLine : Bool := false
  dotAll : Bool := false
  swapLazy : Bool := false
  deriving DecidableEq, Repr

/-- With the characters that differ in case only, if case is ignored. -/
def Flags.close (f : Flags) (s : CharSet) : CharSet := if f.ignoreCase then s.closeCase else s

/-- A group is remembered or not, and those remembered may have names. -/
inductive GroupKind
  | plain
  | numbered
  | named (name : String)
  deriving DecidableEq, Repr

inductive Element
  | char (c : Char)
  /-- A set, and how deep sets are nested in it. -/
  | set (s : CharSet) (depth : Nat)
  | dot
  | lineStart
  | lineEnd
  | anchor (a : Anchor)
  | bar
  | opening (kind : GroupKind) (flags : Flags)
  | closing
  | flags (flags : Flags)
  | quantifier (least : Nat) (most : Option Nat) (isLazy : Bool)

/-- A piece of a text and the text behind it. -/
abbrev Piece (α : Type) := Option (α × List Char)

def hexChar? (cs : List Char) : Option Char :=
  if cs = [] then none
  else (hexNumber? cs).bind fun n => if n.isValidChar then some (Char.ofNat n) else none

/-- A number of hexadecimal digits, or as many as stand in braces. -/
def hexEscape? (digits : Nat) : List Char → Piece Element
  | '{' :: cs =>
    match cs.dropWhile (· ≠ '\x7d') with
    | [] => none
    | _ :: rest => (hexChar? (cs.takeWhile (· ≠ '\x7d'))).map (.char ·, rest)
  | cs =>
    if (cs.take digits).length = digits then
      (hexChar? (cs.take digits)).map (.char ·, cs.drop digits)
    else none

/-- A word boundary, of which a kind may be named in braces. What cannot be a name there is a
repetition. -/
def boundary? : List Char → Piece Element
  | '{' :: c :: cs =>
    if c.isAlpha || c = '-' then
      match (c :: cs).dropWhile fun c => c.isAlpha || c = '-' with
      | '\x7d' :: rest =>
        match String.ofList ((c :: cs).takeWhile fun c => c.isAlpha || c = '-') with
        | "start" => some (.anchor .wordStart, rest)
        | "end" => some (.anchor .wordEnd, rest)
        | "start-half" => some (.anchor .noWordBefore, rest)
        | "end-half" => some (.anchor .noWordAfter, rest)
        | _ => none
      | _ => none
    else some (.anchor .wordBoundary, '{' :: c :: cs)
  | cs => some (.anchor .wordBoundary, cs)

/-- ASCII characters other than letters and digits may be escaped to stand for themselves. -/
def isEscapable (c : Char) : Bool := c.toNat < 0x80 && !c.isAlphanum

/-- What follows a backslash. -/
def escape? : List Char → Piece Element
  | [] => none
  | 'x' :: cs => hexEscape? 2 cs
  | 'u' :: cs => hexEscape? 4 cs
  | 'U' :: cs => hexEscape? 8 cs
  | 'd' :: cs => some (.set .digits 0, cs)
  | 'D' :: cs => some (.set CharSet.digits.complement 0, cs)
  | 's' :: cs => some (.set .blanks 0, cs)
  | 'S' :: cs => some (.set CharSet.blanks.complement 0, cs)
  | 'w' :: cs => some (.set .words 0, cs)
  | 'W' :: cs => some (.set CharSet.words.complement 0, cs)
  | 'a' :: cs => some (.char '\x07', cs)
  | 'f' :: cs => some (.char '\x0c', cs)
  | 'n' :: cs => some (.char '\n', cs)
  | 'r' :: cs => some (.char '\r', cs)
  | 't' :: cs => some (.char '\t', cs)
  | 'v' :: cs => some (.char '\x0b', cs)
  | 'A' :: cs => some (.anchor .textStart, cs)
  | 'z' :: cs => some (.anchor .textEnd, cs)
  | 'b' :: cs => boundary? cs
  | 'B' :: cs => some (.anchor .noWordBoundary, cs)
  | '<' :: cs => some (.anchor .wordStart, cs)
  | '>' :: cs => some (.anchor .wordEnd, cs)
  | c :: cs => if isEscapable c then some (.char c, cs) else none

end FieldRules.Pattern

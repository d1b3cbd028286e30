import FieldRules.Binary64.Literal

/-! JSON texts taken apart, strictly by the grammar of the format. Numbers stay as they are written
and members of objects in their order, names repeated or not. -/
namespace FieldRules.Json
open Text

/-- A number as it is written. -/
structure Literal where
  negative : Bool
  whole : List Char
  fraction : List Char
  exponent : Option Int
  deriving DecidableEq, Repr

/-- The text of a string; none if an escape names half of a surrogate pair. -/
abbrev Content := Option String

inductive Tree
  | null
  | bool (b : Bool)
  | number (n : Literal)
  | string (s : Content)
  | array (items : List Tree)
  | object (members : List (Content × Tree))
  deriving Inhabited

/-! ### Tokens -/

inductive Token
  | mark (c : Char)
  | leaf (t : Tree)

/-- A character of a string, or the number of a code unit given by an escape. -/
inductive CodeUnit
  | char (c : Char)
  | code (n : Nat)
  deriving DecidableEq, Repr

def shortEscape? : Char → Option Char
  | '"' => some '"'
  | '\\' => some '\\'
  | '/' => some '/'
  | 'b' => some '\x08'
  | 'f' => some '\x0c'
  | 'n' => some '\n'
  | 'r' => some '\r'
  | 't' => some '\t'
  | _ => none

/-- What a string holds up to its closing quote, and how many characters that takes with the
quote. -/
def stringUnits? : List Char → Option (List CodeUnit × Nat)
  | [] => none
  | '"' :: _ => some ([], 1)
  | '\\' :: 'u' :: a :: b :: c :: d :: cs =>
    match hexNumber? [a, b, c, d], stringUnits? cs with
    | some n, some (us, k) => some (.code n :: us, k + 6)
    | _, _ => none
  | '\\' :: e :: cs =>
    match shortEscape? e, stringUnits? cs with
    | some c, some (us, k) => some (.char c :: us, k + 2)
    | _, _ => none
  | c :: cs =>
    if c.toNat < 0x20 then none
    else match stringUnits? cs with
      | some (us, k) => some (.char c :: us, k + 1)
      | none => none

def isHighSurrogate (n : Nat) : Bool := 0xd800 ≤ n && n < 0xdc00
def isLowSurrogate (n : Nat) : Bool := 0xdc00 ≤ n && n < 0xe000

/-- Two escapes that name the halves of a pair are one character. -/
def assemble? : List CodeUnit → Option (List Char)
  | [] => some []
  | .char c :: us => (assemble? us).map (c :: ·)
  | .code h :: .code l :: us =>
    if isHighSurrogate h && isLowSurrogate l then
      (assemble? us).map (Char.ofNat (0x10000 + (h - 0xd800) * 0x400 + (l - 0xdc00)) :: ·)
    else if isHighSurrogate h || isLowSurrogate h then none
    else (assemble? (.code l :: us)).map (Char.ofNat h :: ·)
  | .code n :: us =>
    if isHighSurrogate n || isLowSurrogate n then none
    else (assemble? us).map (Char.ofNat n :: ·)

def isNumberChar (c : Char) : Bool := c.isDigit || "+-.eE".toList.contains c

/-- A number has no superfluous zero in front, and digits on both sides of a point. -/
def literal? (cs : List Char) : Option Literal :=
  let negative := cs.head? = some '-'
  let cs := if negative then cs.drop 1 else cs
  let whole := cs.takeWhile Char.isDigit
  if whole = [] ∨ (whole.head? = some '0' ∧ whole ≠ ['0']) then none
  else
    let (pointed, fraction, rest) := match cs.dropWhile Char.isDigit with
      | '.' :: rest => (true, rest.takeWhile Char.isDigit, rest.dropWhile Char.isDigit)
      | rest => (false, [], rest)
    if pointed ∧ fraction = [] then none
    else if rest = [] then some ⟨negative, whole, fraction, none⟩
    else (Binary64.exponent? rest).map fun e => ⟨negative, whole, fraction, some e⟩

def word? (cs : List Char) : Option Tree :=
  if cs = "null".toList then some .null
  else if cs = "true".toList then some (.bool true)
  else if cs = "false".toList then some (.bool false)
  else none

/-- The token that begins with a character that is no blank, and how many more characters it
takes. -/
def token? (c : Char) (cs : List Char) : Option (Token × Nat) :=
  if "[]\x7b\x7d:,".toList.contains c then some (.mark c, 0)
  else if c = '"' then
    (stringUnits? cs).map fun p => (.leaf (.string ((assemble? p.1).map String.ofList)), p.2)
  else if isNumberChar c then
    let more := cs.takeWhile isNumberChar
    (literal? (c :: more)).map fun n => (.leaf (.number n), more.length)
  else
    let more := cs.takeWhile Char.isAlpha
    (word? (c :: more)).map fun t => (.leaf t, more.length)

/-- The tokens of a text, after the characters that a token has already taken. -/
def tokens? : Nat → List Char → Option (List Token)
  | _, [] => some []
  | n + 1, _ :: cs => tokens? n cs
  | 0, c :: cs =>
    if c = ' ' ∨ c = '\t' ∨ c = '\n' ∨ c = '\r' then tokens? 0 cs
    else match token? c cs with
      | none => none
      | some (t, k) => (tokens? k cs).map (t :: ·)

/-! ### Trees -/

/-- An array or object whose end is not read yet, its parts last first. -/
inductive Frame
  | array (items : List Tree)
  | object (members : List (Content × Tree))
  | member (members : List (Content × Tree)) (name : Content)

/-- What has to come next. -/
inductive Expected
  | value
  | valueOrEnd
  | name
  | nameOrEnd
  | colon (name : Content)
  | after (t : Tree)

/-- A value that is not read to its end. -/
structure Unfinished where
  frames : List Frame
  expected : Expected

/-- The value that comes next begins with the token. -/
def Unfinished.begin (frames : List Frame) : Token → Option Unfinished
  | .leaf t => some ⟨frames, .after t⟩
  | .mark '[' => some ⟨.array [] :: frames, .valueOrEnd⟩
  | .mark '\x7b' => some ⟨.object [] :: frames, .nameOrEnd⟩
  | _ => none

def Unfinished.step : Unfinished → Token → Option Unfinished
  | ⟨frames, .value⟩, t => begin frames t
  | ⟨.array [] :: frames, .valueOrEnd⟩, .mark ']' => some ⟨frames, .after (.array [])⟩
  | ⟨frames, .valueOrEnd⟩, t => begin frames t
  | ⟨.object [] :: frames, .nameOrEnd⟩, .mark '\x7d' => some ⟨frames, .after (.object [])⟩
  | ⟨frames, .nameOrEnd⟩, .leaf (.string s) => some ⟨frames, .colon s⟩
  | ⟨frames, .name⟩, .leaf (.string s) => some ⟨frames, .colon s⟩
  | ⟨.object ms :: frames, .colon s⟩, .mark ':' => some ⟨.member ms s :: frames, .value⟩
  | ⟨.array ts :: frames, .after t⟩, .mark ',' => some ⟨.array (t :: ts) :: frames, .value⟩
  | ⟨.array ts :: frames, .after t⟩, .mark ']' => some ⟨frames, .after (.array (t :: ts).reverse)⟩
  | ⟨.member ms s :: frames, .after t⟩, .mark ',' =>
    some ⟨.object ((s, t) :: ms) :: frames, .name⟩
  | ⟨.member ms s :: frames, .after t⟩, .mark '\x7d' =>
    some ⟨frames, .after (.object ((s, t) :: ms).reverse)⟩
  | _, _ => none

namespace Tree

def ofTokens? (ts : List Token) : Option Tree :=
  match ts.foldlM Unfinished.step ⟨[], .value⟩ with
  | some ⟨[], .after t⟩ => some t
  | _ => none

def ofText? (s : String) : Option Tree := (tokens? 0 s.toList).bind ofTokens?

mutual

/-- How deep arrays and objects are nested. -/
def depth : Tree → Nat
  | array items => depthList items + 1
  | object members => depthMembers members + 1
  | _ => 0

def depthList : List Tree → Nat
  | [] => 0
  | t :: ts => max (depth t) (depthList ts)

def depthMembers : List (Content × Tree) → Nat
  | [] => 0
  | (_, t) :: ms => max (depth t) (depthMembers ms)

end
end Tree
end FieldRules.Json

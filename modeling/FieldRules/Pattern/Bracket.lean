import FieldRules.Pattern.Element

/-! Sets in brackets. Their items are characters, ranges, escapes, named sets and other sets in
brackets; doubled operators between items cut and subtract sets, from left to right. -/
namespace FieldRules.Pattern
open Text

inductive SetOperator
  | common
  | without
  | either
  deriving DecidableEq, Repr

def SetOperator.ofChar? : Char → Option SetOperator
  | '&' => some .common
  | '-' => some .without
  | '~' => some .either
  | _ => none

def SetOperator.apply : SetOperator → CharSet → CharSet → CharSet
  | common => CharSet.inter
  | without => CharSet.diff
  | either => CharSet.symmDiff

/-- A set and how deep sets are nested in it. -/
structure NestedSet where
  set : CharSet
  depth : Nat

/-- The items since the bracket or the last operator. -/
structure SetItems where
  set : CharSet := .empty
  count : Nat := 0
  depth : Nat := 0

def SetItems.add (i : SetItems) (s : NestedSet) : SetItems :=
  ⟨i.set.union s.set, i.count + 1, max i.depth s.depth⟩

/-- Several items count as nested in their union. -/
def SetItems.union (f : Flags) (i : SetItems) : NestedSet :=
  ⟨f.close i.set, if i.count < 2 then i.depth else i.depth + 1⟩

/-- A set that is read up to some point, with what stands left of the last operator. -/
structure OpenSet where
  outside : Bool
  items : SetItems := {}
  left : Option (NestedSet × SetOperator) := none

namespace OpenSet

def add (o : OpenSet) (s : NestedSet) : OpenSet := { o with items := o.items.add s }

/-- The set so far, with the last operator applied. -/
def value (f : Flags) (o : OpenSet) : NestedSet :=
  let right := o.items.union f
  match o.left with
  | none => right
  | some (left, op) => ⟨op.apply left.set right.set, max left.depth right.depth + 1⟩

def operate (f : Flags) (o : OpenSet) (op : SetOperator) : OpenSet :=
  { o with items := {}, left := some (o.value f, op) }

def close (f : Flags) (o : OpenSet) : NestedSet :=
  let v := o.value f
  let s := f.close v.set
  ⟨if o.outside then s.complement else s, v.depth + 1⟩

/-- What comes behind an opening bracket: hyphens in front, and a closing bracket that comes first,
stand for themselves. -/
def begin (cs : List Char) : OpenSet × List Char :=
  let outside := cs.head? = some '^'
  let cs := if outside then cs.drop 1 else cs
  let hyphens := cs.takeWhile (· = '-')
  let bracket := hyphens = [] ∧ cs.head? = some ']'
  let own := if bracket then [']'] else hyphens
  (own.foldl (fun o c => o.add ⟨.one c, 0⟩) { outside := outside },
    if bracket then cs.drop 1 else cs.dropWhile (· = '-'))

end OpenSet

/-- A named set, from behind its opening bracket. -/
def namedSet? (f : Flags) : List Char → Piece CharSet
  | ':' :: cs =>
    let outside := cs.head? = some '^'
    let cs := if outside then cs.drop 1 else cs
    match cs.dropWhile Char.isAlpha with
    | ':' :: ']' :: rest =>
      (CharSet.named? (String.ofList (cs.takeWhile Char.isAlpha))).map fun s =>
        (if outside then (f.close s).complement else f.close s, rest)
    | _ => none
  | _ => none

/-- A character or an escape. -/
def setChar? : List Char → Piece Element
  | [] => none
  | '\\' :: cs => escape? cs
  | c :: cs => some (.char c, cs)

/-- An item that is no bracket. A hyphen makes it a range, unless a bracket or another hyphen
follows. -/
def setRange? (cs : List Char) : Piece CharSet :=
  match setChar? cs with
  | some (.set s _, '-' :: d :: rest) =>
    if d = ']' ∨ d = '-' then some (s, '-' :: d :: rest) else none
  | some (.set s _, rest) => some (s, rest)
  | some (.char a, '-' :: d :: rest) =>
    if d = ']' ∨ d = '-' then some (.one a, '-' :: d :: rest)
    else match setChar? (d :: rest) with
      | some (.char b, rest) => if a ≤ b then some (.between a b, rest) else none
      | _ => none
  | some (.char a, rest) => some (.one a, rest)
  | _ => none

/-- Reads on to the bracket that closes the innermost open set, then the next one, and so on; the
characters that an item has already taken are skipped. -/
def readSets (f : Flags) (inner : OpenSet) (outer : List OpenSet) : Nat → List Char → Piece NestedSet
  | _, [] => none
  | n + 1, _ :: cs => readSets f inner outer n cs
  | 0, c :: cs =>
    if c = ']' then
      match outer with
      | [] => some (inner.close f, cs)
      | o :: outer => readSets f (o.add (inner.close f)) outer 0 cs
    else if c = '[' then
      match namedSet? f cs with
      | some (s, rest) => readSets f (inner.add ⟨s, 0⟩) outer (taken cs rest) cs
      | none =>
        let (o, rest) := OpenSet.begin cs
        readSets f o (inner :: outer) (taken cs rest) cs
    else
      match if cs.head? = some c then SetOperator.ofChar? c else none with
      | some op => readSets f (inner.operate f op) outer 1 cs
      | none =>
        match setRange? (c :: cs) with
        | none => none
        | some (s, rest) => readSets f (inner.add ⟨s, 0⟩) outer (taken cs rest) cs

/-- A set, from behind its opening bracket. -/
def bracket? (f : Flags) (cs : List Char) : Piece Element :=
  let (o, rest) := OpenSet.begin cs
  (readSets f o [] 0 rest).map fun p => (.set p.1.set p.1.depth, p.2)

example : ((bracket? {} "a-c[:digit:]-]".toList).map fun p => match p.1 with
    | .set s _ => s.ranges
    | _ => []) = some [(0x2d, 0x2d), (0x30, 0x39), (0x61, 0x63)] := by decide +kernel
example : ((bracket? {} "a-z&&[^aeiou]]".toList).map fun p => match p.1 with
    | .set s _ => s.ranges.head?
    | _ => none) = some (some (0x62, 0x64)) := by decide +kernel

end FieldRules.Pattern

import FieldRules.Pattern.Simple

/-! The texts that occurrences of a pattern begin with. Where they are few, and no occurrence goes on
behind them, they can be searched for themselves, so that the pattern needs no automaton. -/
namespace FieldRules.Pattern

/-- Bytes that occurrences begin with. They are exact where such an occurrence ends behind them. -/
structure Beginning where
  bytes : List UInt8
  exact : Bool
  deriving DecidableEq, Repr

namespace Beginning

def loose (b : Beginning) : Beginning := { b with exact := false }

/-- Cut to a number of bytes. -/
def cut (n : Nat) (b : Beginning) : Beginning :=
  if b.bytes.length ≤ n then b else ⟨b.bytes.take n, false⟩

/-- What begins with this and goes on with one of the others. -/
def append (b : Beginning) (cs : List Beginning) : List Beginning :=
  if b.exact then cs.map fun c => ⟨b.bytes ++ c.bytes, c.exact⟩ else [b]

end Beginning

/-- The beginnings, preferred ones first; none are listed where they are any texts. -/
abbrev Beginnings := Option (List Beginning)

namespace Beginnings

def empty : Beginnings := some [⟨[], true⟩]

def maxCount : Nat := 250
def maxLength : Nat := 100
def maxSetSize : Nat := 10
def maxTimes : Nat := 10

/-- Neighbours of the same bytes become one. -/
def dedup : List Beginning → List Beginning :=
  List.foldr (fun b bs => match bs with
    | c :: cs => if b.bytes = c.bytes then ⟨b.bytes, b.exact && c.exact⟩ :: cs else b :: c :: cs
    | [] => [b]) []

def allLoose (bs : Beginnings) : Beginnings := bs.map (·.map Beginning.loose)

/-- Nothing can be added behind any of them. -/
def closed (bs : Beginnings) : Bool := bs.all fun bs => bs.all (!·.exact)

def beside : Beginnings → Beginnings → Beginnings
  | some bs, some cs =>
    if bs.length + cs.length ≤ maxCount then some (dedup (bs ++ cs))
    else
      let bs := dedup (bs.map (.cut 4))
      let cs := dedup (cs.map (.cut 4))
      if bs.length + cs.length ≤ maxCount then some (dedup (bs ++ cs)) else none
  | _, _ => none

/-- Behind these may be any text. -/
def anyBehind (bs : List Beginning) : Beginnings :=
  if bs.any (·.bytes = []) then none else some (bs.map Beginning.loose)

/-- Each of the first ones with each of the others behind it. -/
def join (bs : List Beginning) : Beginnings → Beginnings
  | none => anyBehind bs
  | some cs =>
    if bs.length * cs.length ≤ maxCount then some (dedup (bs.flatMap (·.append cs)))
    else anyBehind bs

def followedBy (bs cs : Beginnings) : Beginnings :=
  (bs.bind (join · cs)).map (·.map (.cut maxLength))

def ofSet (s : CharSet) : Beginnings :=
  if (s.ranges.foldl (fun n r => n + (r.2 + 1 - r.1)) 0) ≤ maxSetSize then
    some (s.ranges.flatMap fun r => (List.range (r.2 + 1 - r.1)).map fun i =>
      ⟨String.utf8EncodeChar (.ofNat (r.1 + i)), true⟩)
  else none

/-- The beginnings of a repetition, from those of one turn. -/
def times (bs : Beginnings) (least : Nat) (most : Option Nat) (isLazy : Bool) : Beginnings :=
  if least = 0 then
    let bs := if most = some 1 then bs else bs.allLoose
    if isLazy then beside empty bs else beside bs empty
  else
    let all := (List.range (min least maxTimes)).foldl
      (fun all _ => if all.closed then all else all.followedBy bs) empty
    if most = some least ∧ least ≤ maxTimes then all else all.allLoose

end Beginnings

/-- Where a pattern stands: by itself, behind what a sequence begins with, or beside the alternatives
in front of it. -/
inductive Place
  | alone
  | behind (bs : Beginnings)
  | beside (bs : Beginnings)

/-- Together with what the place has already; what is not needed is not asked for. -/
def Place.fill (p : Place) (bs : Unit → Beginnings) : Beginnings :=
  match p with
  | .alone => bs ()
  | .behind cs => if cs.closed then cs else cs.followedBy (bs ())
  | .beside cs => if cs.isNone then cs else cs.beside (bs ())

def beginnings : Pattern → Place → Beginnings
  | empty, place => place.fill fun _ => .empty
  | text cs, place => place.fill fun _ =>
    some [.cut Beginnings.maxLength ⟨cs.flatMap String.utf8EncodeChar, true⟩]
  | char s, place => place.fill fun _ => .ofSet s
  | anchor _, place => place.fill fun _ => .empty
  | group _ p, place => place.fill fun _ => p.beginnings .alone
  | seq p q, .behind bs => q.beginnings (.behind (p.beginnings (.behind bs)))
  | seq p q, place => place.fill fun _ =>
    q.beginnings (.behind (p.beginnings (.behind .empty)))
  | either p q, .beside bs => q.beginnings (.beside (p.beginnings (.beside bs)))
  | either p q, place => place.fill fun _ =>
    q.beginnings (.beside (p.beginnings (.beside (some []))))
  | repeated p least most isLazy, place => place.fill fun _ =>
    (p.beginnings .alone).times least most isLazy

/-! Choosing what to search for. -/

/-- Without those that begin with an earlier one. -/
def withoutLonger (bs : List Beginning) : List Beginning :=
  bs.foldl (fun kept b => if kept.any (·.bytes.isPrefixOf b.bytes) then kept else kept ++ [b]) []

/-- The byte is one of these characters, or the first one of a character beyond ASCII. -/
def isOneOf (chars : String) (b : UInt8) : Bool :=
  0xc0 ≤ b || chars.toList.any fun c => c.toNat = b.toNat

/-- The bytes that texts have most of. -/
def isCommon (b : UInt8) : Bool := isOneOf "\n\r (),-./0129:_abcdefghilmnoprstuvxy|" b

/-- Too short and too common to be worth a search. -/
def Beginning.isEverywhere (b : Beginning) : Bool :=
  match b.bytes with
  | [] => true
  | [c] => isOneOf " et" c
  | _ => false

/-- Shorter beginnings step by step, as long as there are too many. -/
def shorten : List (Nat × Nat) → List Beginning → List Beginning
  | [], bs => bs
  | (length, count) :: steps, bs =>
    if bs.length ≤ count then bs else shorten steps (withoutLonger (bs.map (.cut length)))

/-- What all begin with is searched for alone if it is rare, or long, or they are many. -/
def narrow (bs : List Beginning) : List Beginning :=
  let few := withoutLonger bs
  let front := match few.map Beginning.bytes with
    | [] => []
    | b :: bs => bs.foldl commonFront b
  if 1 < bs.length && front.length ≤ 3 && front.head?.any (!isCommon ·) then
    Beginnings.dedup (few.map (.cut 1))
  else if 4 < front.length || (1 < front.length && 16 < few.length) then
    Beginnings.dedup (few.map (.cut front.length))
  else few

/-- The texts that are searched for are the occurrences. Shorter ones are taken in their place only if
these are neither too short nor too many. -/
def areOccurrences (bs : List Beginning) : Bool :=
  let texts := narrow bs
  let short := shorten [(5, 10), (4, 10), (3, 64), (2, 64), (1, 10)] texts
  !bs.isEmpty && bs.all (·.bytes ≠ []) && texts.all Beginning.exact &&
    (short.all Beginning.exact || short.any Beginning.isEverywhere ||
      short.any (·.bytes.length ≤ 2) || 64 < short.length)

/-- The pattern has no groups and no anchors. -/
def isPlain : Pattern → Bool
  | anchor _ => false
  | group _ _ => false
  | seq p q => p.isPlain && q.isPlain
  | either p q => p.isPlain && q.isPlain
  | repeated p _ _ _ => p.isPlain
  | _ => true

def isText : Pattern → Bool
  | text _ => true
  | _ => false

/-- The occurrences are found without an automaton. Many alternatives that are all texts are searched
for together, whatever they are. -/
def isFixed (p : Pattern) : Bool :=
  p.isPlain && ((Beginnings.beside (some []) (p.beginnings .alone)).any areOccurrences ||
    (3000 ≤ p.alternatives.length && p.alternatives.all isText))

example : (choice [text ['a'], times (char .empty) 9999999 (some 9999999) false]).isFixed = true := by
  decide +kernel
example : (times (text ['a']) 1 none false).isFixed = false := by decide +kernel

end FieldRules.Pattern

import FieldRules.Pattern

/-! Patterns in simple form. Sequences and alternatives are flat and lean to the right, texts that meet
are one, no part is empty, a set of one character is a text, and alternatives that begin with the
same parts have them in front. The constructors here keep patterns simple. -/
namespace FieldRules.Pattern

/-- What two lists begin with. -/
def commonFront {α : Type} [DecidableEq α] : List α → List α → List α
  | a :: as, b :: bs => if a = b then a :: commonFront as bs else []
  | _, _ => []

/-- Nothing that occurs has a character. -/
def zeroWidth : Pattern → Bool
  | empty => true
  | text cs => cs.isEmpty
  | char _ => false
  | anchor _ => true
  | group _ p => p.zeroWidth
  | seq p q => p.zeroWidth && q.zeroWidth
  | either p q => p.zeroWidth && q.zeroWidth
  | repeated p _ most _ => most = some 0 || p.zeroWidth

def ofSet (s : CharSet) : Pattern :=
  match s.only? with
  | some c => text [c]
  | none => char s

/-- A repetition. More than one time of no characters is the same as one. -/
def times (p : Pattern) (least : Nat) (most : Option Nat) (isLazy : Bool) : Pattern :=
  let (least, most) :=
    if p.zeroWidth then (min least 1, some (min (most.getD 1) 1)) else (least, most)
  if most = some 0 then empty
  else if least = 1 ∧ most = some 1 then p
  else repeated p least most isLazy

/-- The parts of a sequence. -/
def parts : Pattern → List Pattern
  | empty => []
  | seq p q => p.parts ++ q.parts
  | p => [p]

/-- A part in front of others. -/
def addPart : Pattern → List Pattern → List Pattern
  | text cs, text ds :: ps => text (cs ++ ds) :: ps
  | p, ps => p :: ps

def ofParts : List Pattern → Pattern
  | [] => empty
  | [p] => p
  | p :: ps => seq p (ofParts ps)

def sequence (ps : List Pattern) : Pattern := ofParts ((ps.flatMap parts).foldr addPart [])

def alternatives : Pattern → List Pattern
  | either p q => p.alternatives ++ q.alternatives
  | p => [p]

def ofAlternatives : List Pattern → Pattern
  | [] => char .empty
  | [p] => p
  | p :: ps => either p (ofAlternatives ps)

def single? : Pattern → Option CharSet
  | text [c] => some (.one c)
  | _ => none

def set? : Pattern → Option CharSet
  | char s => some s
  | _ => none

/-- Alternatives that are all single characters, or all sets, are one set. -/
def merged (ps : List Pattern) : Pattern :=
  match ps.flatMap alternatives with
  | [p] => p
  | ps =>
    match ps.mapM single? <|> ps.mapM set? with
    | some sets => ofSet (sets.foldl CharSet.union .empty)
    | none => ofAlternatives ps

/-- The parts that all the sequences begin with; a single part is no sequence. -/
def sharedParts (sequences : List (List Pattern)) : List Pattern :=
  if sequences.any (·.length < 2) then []
  else match sequences with
    | [] => []
    | s :: ss => ss.foldl commonFront s

def choice (ps : List Pattern) : Pattern :=
  let sequences := (ps.flatMap alternatives).map parts
  match sharedParts sequences with
  | [] => merged ps
  | front => sequence (front ++ [merged (sequences.map fun s => sequence (s.drop front.length))])

example : sequence [text ['a'], empty, seq (text ['b']) (char .all)] =
    seq (text ['a', 'b']) (char .all) := by decide +kernel
example : choice [text ['a'], text ['c'], text ['b']] = char (.between 'a' 'c') := by decide +kernel
example : choice [seq (char .all) (text ['a']), seq (char .all) (anchor .textEnd)] =
    seq (char .all) (either (text ['a']) (anchor .textEnd)) := by decide +kernel
example : times (anchor .textStart) 3 none false = anchor .textStart := by decide +kernel

end FieldRules.Pattern

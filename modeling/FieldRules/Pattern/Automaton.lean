import FieldRules.CharSet.Encoded

/-! Automata over UTF-8, known by the number of their states, which is also the name of the next one,
and by the bytes that transitions take: 8 for one on a byte where a state may have several, 4 for one
on nothing. Repetitions are written out. -/
namespace FieldRules.Pattern

/-- Automata read forwards from a first occurrence, or backwards from a last one. -/
inductive Direction
  | forward
  | backward
  deriving DecidableEq, Repr

structure Automaton where
  states : Nat := 0
  transitions : Nat := 0
  deriving DecidableEq, Repr

def maxSize : Nat := 10 * 1024 * 1024

namespace Automaton

def size (a : Automaton) : Nat := 32 * a.states + a.transitions

def fits (a : Automaton) : Bool := a.size ≤ maxSize

/-- With more states and bytes of transitions. -/
def grow (a : Automaton) (states transitions : Nat) : Automaton :=
  ⟨a.states + states, a.transitions + transitions⟩

@[simp] theorem size_grow (a : Automaton) (states transitions : Nat) :
    (a.grow states transitions).size = a.size + (32 * states + transitions) := by
  simp only [size, grow]
  omega

/-- A part again and again, up to where the automaton is too large. -/
def again (part : Automaton → Automaton) : Nat → Automaton → Automaton
  | 0, a => a
  | n + 1, a => if a.fits then again part n (part a) else a

/-- A part a number of times; none at all takes a state. -/
def exactly (part : Automaton → Automaton) (n : Nat) (a : Automaton) : Automaton :=
  if n = 0 then a.grow 1 0 else again part n a

/-- A repetition of a part. The shorter of the loops is for parts that always read something. -/
def repeated (part : Automaton → Automaton) (reads : Bool) (least : Nat) (most : Option Nat)
    (a : Automaton) : Automaton :=
  match least, most with
  | 0, none => if reads then (part (a.grow 1 0)).grow 0 8 else (part a).grow 3 16
  | least, none => (again part least a).grow 1 8
  | 0, some 1 => (part (a.grow 1 0)).grow 1 8
  | least, some most =>
    if least = most then exactly part least a
    else
      again (fun a => (part (a.grow 1 0)).grow 0 8) (most - least)
        ((exactly part least a).grow 1 0)

/-! Fixed texts share the states for what they begin with. -/

/-- The texts between those that are empty. -/
def runs : List (List UInt8) → List (List (List UInt8))
  | [] => [[]]
  | [] :: texts => [] :: runs texts
  | t :: texts =>
    match runs texts with
    | [] => [[t]]
    | r :: rs => (t :: r) :: rs

/-- What is behind the first byte, for each byte that texts begin with. -/
def behindFirst (texts : List (List UInt8)) : List (List (List UInt8)) :=
  (texts.filterMap List.head?).eraseDups.map fun b =>
    texts.filterMap fun t => if t.head? = some b then some t.tail else none

/-- The place in texts where these are left. A text that ends there cuts those before it from those
behind it; ends in front of all others count once. The length of the longest comes with the call. -/
def place : Nat → List (List UInt8) → Automaton → Automaton
  | 0, _, a => a
  | n + 1, texts, a =>
    let ends := texts.takeWhile List.isEmpty
    let cuts := runs (ends.take 1 ++ texts.dropWhile List.isEmpty)
    let groups := (cuts.map behindFirst).filter (!·.isEmpty)
    let wide := groups.filter (1 < ·.length)
    let own := a.grow (1 + groups.length)
      (4 * (cuts.length - 1 + groups.length) + (wide.map fun g => 8 * g.length).sum)
    groups.flatten.foldl (fun a rests => if rests.all List.isEmpty then a else place n rests a) own

def texts (ts : List (List UInt8)) (a : Automaton) : Automaton :=
  place ((ts.map List.length).foldl max 0) ts (a.grow 1 0)

example : (texts [[1, 2], [1, 3]] {}).size = 32 + 68 + 84 := by decide +kernel

/-! Sets of characters share states through a table, which may forget some. -/

/-- An automaton with a table of states by their keys. What comes to a slot takes it. -/
structure Tabled where
  automaton : Automaton
  slots : Array (Option (List Nat × Nat))

namespace Tabled

def start (slots : Nat) (a : Automaton) : Tabled := ⟨a, Array.replicate slots none⟩

/-- The key's numbers mixed into one. -/
def mix (key : List Nat) : Nat :=
  (key.foldl (fun h n => (h ^^^ n.toUInt64) * 1099511628211) (14695981039346656037 : UInt64)).toNat

/-- The state with the key, a new one if the table has none, with these bytes of transitions. -/
def share (t : Tabled) (key : List Nat) (transitions : Nat) : Nat × Tabled :=
  let slot := mix key % t.slots.size
  match t.slots[slot]?.join.filter (·.1 = key) with
  | some (_, state) => (state, t)
  | none =>
    let state := t.automaton.states
    (state, ⟨t.automaton.grow 1 transitions, t.slots.setIfInBounds slot (some (key, state))⟩)

/-- A state for each byte of the sequence on the way to the end, the last one first. -/
def addBackward (last : Nat) (t : Tabled) (bytes : List CharSet.ByteRange) : Tabled :=
  (bytes.foldl (fun (p : Nat × Tabled) r => p.2.share [p.1, r.1, r.2] 0) (last, t)).2

/-- The state that reads one of the sequences up to the last state, and those behind it. Sequences
have at most as many bytes as come with the call. -/
def addForward (last : Nat) : Nat → List (List CharSet.ByteRange) → Tabled → Nat × Tabled
  | 0, _, t => (last, t)
  | n + 1, sequences, t =>
    if sequences.all List.isEmpty then (last, t)
    else
      let branches := CharSet.branches sequences
      let (key, t) := branches.foldl (fun (p : List Nat × Tabled) b =>
        let (next, t) := addForward last n b.2 p.2
        (p.1 ++ [b.1.1, b.1.2, next], t)) ([], t)
      t.share key (8 * branches.length)

end Tabled

def set (d : Direction) (s : CharSet) (a : Automaton) : Automaton :=
  if s.ranges.all (·.2 < 0x80) then a.grow 2 (8 * s.ranges.length)
  else match d with
    | .forward =>
      (Tabled.addForward a.states 4 s.encoded (.start 10000 (a.grow 1 0))).2.automaton
    | .backward =>
      (s.encoded.foldl (Tabled.addBackward (a.states + 1)) (.start 1000 (a.grow 2 0))).automaton.grow
        0 (4 * s.encoded.length)

example : (set .backward (.between 'a' 'é') {}).size = 32 * 7 + 12 := by decide +kernel

end Automaton
end FieldRules.Pattern

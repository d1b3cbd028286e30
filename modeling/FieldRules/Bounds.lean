import FieldRules.Binary64.Literal
import FieldRules.Text.Blank
import FieldRules.Text.Separated

/-! Closed intervals with an end open or not, as clauses write them. -/
namespace FieldRules

structure Bounds (α : Type) where
  lower : Option α
  upper : Option α
  deriving DecidableEq, Repr

namespace Bounds
variable {α : Type} [LE α] [DecidableLE α]

def contains (b : Bounds α) (x : α) : Bool :=
  b.lower.all (fun l => l ≤ x) && b.upper.all (fun u => x ≤ u)

/-- One end: nothing but blanks leaves it open. -/
def end? (read : List Char → Option α) (cs : List Char) : Option (Option α) :=
  match Text.trimChars cs with
  | [] => some none
  | cs => (read cs).map some

/-- The ends stand on the two sides of the first separator. At least one is given, and they are in
order. -/
def parse? (sep : Char) (read : List Char → Option α) (s : String) : Option (Bounds α) :=
  match Text.splitOnce? sep s.toList with
  | none => none
  | some (lower, upper) =>
    match end? read lower, end? read upper with
    | some none, some none => none
    | some (some l), some (some u) => if l ≤ u then some ⟨some l, some u⟩ else none
    | some l, some u => some ⟨l, u⟩
    | _, _ => none

def length? (s : String) : Option (Bounds Nat) := parse? '-' Text.natural? s
def integers? (s : String) : Option (Bounds Int64) := parse? '|' Text.integer? s
def floats? (s : String) : Option (Bounds Binary64) := parse? '|' Binary64.finite? s

end Bounds

example : Bounds.length? "2-" = some ⟨some 2, none⟩ ∧ Bounds.length? "-" = none := by decide
example : Bounds.integers? " -5 |-1" = some ⟨some (-5), some (-1)⟩ := by decide
example : Bounds.length? "5-2" = none ∧ Bounds.length? "1-2-3" = none := by decide

end FieldRules

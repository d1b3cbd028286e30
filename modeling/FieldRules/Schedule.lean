/-! Putting a list in an order in which everything comes after what it needs, and otherwise as
early as it stands in the list. -/
namespace FieldRules
variable {α : Type}

/-- Needs nothing that is still left. -/
def isReady (needs : α → α → Bool) (left : List α) (x : α) : Bool := left.all fun y => !needs x y

/-- Takes the first ready one again and again. Where nothing is ready the rest stays as it is. -/
def schedule (needs : α → α → Bool) (left : List α) : List α :=
  match h : left.find? (isReady needs left) with
  | none => left
  | some x =>
    have : (left.eraseP (isReady needs left)).length < left.length := by
      have hx := List.mem_of_find?_eq_some h
      rw [List.length_eraseP_of_mem hx (List.find?_some h)]
      have := List.length_pos_of_mem hx
      omega
    x :: schedule needs (left.eraseP (isReady needs left))
termination_by left.length

/-- The first in the list that needs itself or something behind it. -/
def firstUnready (needs : α → α → Bool) : List α → Option α
  | [] => none
  | x :: xs => if isReady needs (x :: xs) x then firstUnready needs xs else some x

theorem schedule_eq_self {needs : α → α → Bool} {left : List α}
    (h : left.find? (isReady needs left) = none) : schedule needs left = left := by
  rw [schedule]
  split <;> simp_all

theorem schedule_eq_cons {needs : α → α → Bool} {left : List α} {x : α}
    (h : left.find? (isReady needs left) = some x) :
    schedule needs left = x :: schedule needs (left.eraseP (isReady needs left)) := by
  rw [schedule]
  split <;> simp_all

end FieldRules

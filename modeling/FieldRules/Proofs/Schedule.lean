import FieldRules.Schedule
import Mathlib.Data.List.MinMax

/-! What scheduling comes to where nothing needs itself, directly or through others: everything is
kept, comes after what it needs, and no such order of an ascending list is lexicographically
smaller. -/
namespace FieldRules
variable {α : Type} {needs : α → α → Bool}

/-- Nothing in the list needs itself or something behind it. -/
def IsInOrder (needs : α → α → Bool) : List α → Prop
  | [] => True
  | x :: xs => isReady needs (x :: xs) x ∧ IsInOrder needs xs

/-- What is needed always ranks lower. -/
def IsRanked (needs : α → α → Bool) (rank : α → Nat) : Prop :=
  ∀ x y, needs x y = true → rank y < rank x

theorem isReady_iff {left : List α} {x : α} :
    isReady needs left x = true ↔ ∀ y ∈ left, needs x y = false := by
  simp [isReady]

theorem isReady_perm {left left' : List α} (h : left.Perm left') (x : α) :
    isReady needs left x = isReady needs left' x := by
  rw [Bool.eq_iff_iff, isReady_iff, isReady_iff]
  simp only [h.mem_iff]

theorem firstUnready_eq_none_iff {l : List α} : firstUnready needs l = none ↔ IsInOrder needs l := by
  induction l with
  | nil => simp [firstUnready, IsInOrder]
  | cons x xs ih =>
    by_cases h : isReady needs (x :: xs) x = true
    · simp [firstUnready, IsInOrder, h, ih]
    · simp [firstUnready, IsInOrder, h]

theorem IsInOrder.idxOf_lt [DecidableEq α] {l : List α} (h : IsInOrder needs l) {x y : α}
    (hx : x ∈ l) (hy : y ∈ l) (hxy : needs x y = true) : l.idxOf y < l.idxOf x := by
  induction l with
  | nil => simp at hx
  | cons z l ih =>
    obtain ⟨hz, hl⟩ := h
    have hxz : x ≠ z := by
      rintro rfl
      simp [isReady_iff.1 hz y hy] at hxy
    by_cases hyz : y = z
    · subst hyz
      simp [List.idxOf_cons_ne l hxz.symm]
    · have hx' := (List.mem_cons.1 hx).resolve_left hxz
      have hy' := (List.mem_cons.1 hy).resolve_left hyz
      rw [List.idxOf_cons_ne l (Ne.symm hxz), List.idxOf_cons_ne l (Ne.symm hyz)]
      exact Nat.succ_lt_succ (ih hl hx' hy')

theorem IsInOrder.pairwise {l : List α} (h : IsInOrder needs l) :
    l.Pairwise fun x y => needs x y = false := by
  induction l with
  | nil => exact .nil
  | cons x l ih =>
    obtain ⟨hx, hl⟩ := h
    exact List.pairwise_cons.2 ⟨fun y hy => isReady_iff.1 hx y (by simp [hy]), ih hl⟩

/-- The converse: a list in which each comes behind what it needs is in order. -/
theorem isInOrder_of_idxOf_lt [DecidableEq α] {l : List α} (hl : l.Nodup)
    (h : ∀ x ∈ l, ∀ y ∈ l, needs x y = true → l.idxOf y < l.idxOf x) : IsInOrder needs l := by
  induction l with
  | nil => trivial
  | cons z l ih =>
    obtain ⟨hz, hl⟩ := List.nodup_cons.1 hl
    refine ⟨?_, ih hl ?_⟩
    · rw [isReady_iff]
      intro y hy
      by_contra hn
      have := h z (by simp) y hy (by simpa using hn)
      simp at this
    · intro x hx y hy hxy
      have hxz : z ≠ x := by rintro rfl; exact hz hx
      have hyz : z ≠ y := by rintro rfl; exact hz hy
      have := h x (by simp [hx]) y (by simp [hy]) hxy
      rw [List.idxOf_cons_ne l hxz, List.idxOf_cons_ne l hyz] at this
      exact Nat.lt_of_succ_lt_succ this

/-- The first ready one parts the list. -/
theorem find?_ready_split {p : α → Bool} {left : List α} {x : α} (h : left.find? p = some x) :
    ∃ as bs, left = as ++ x :: bs ∧ left.eraseP p = as ++ bs ∧ ∀ a ∈ as, p a = false := by
  obtain ⟨hx, as, bs, rfl, has⟩ := List.find?_eq_some_iff_append.1 h
  have has : ∀ a ∈ as, p a = false := fun a ha => by simpa using has a ha
  refine ⟨as, bs, rfl, ?_, has⟩
  rw [List.eraseP_append_right _ (by simpa using has), List.eraseP_cons_of_pos hx]

theorem perm_cons_eraseP {p : α → Bool} {left : List α} {x : α} (h : left.find? p = some x) :
    left.Perm (x :: left.eraseP p) := by
  obtain ⟨as, bs, hl, he, _⟩ := find?_ready_split h
  rw [he, hl]
  exact List.perm_middle

theorem schedule_perm (needs : α → α → Bool) (left : List α) : (schedule needs left).Perm left := by
  fun_induction schedule needs left with
  | case1 left h => exact List.Perm.refl left
  | case2 left x h _ ih => exact (ih.cons x).trans (perm_cons_eraseP h).symm

/-- As long as something is left, the one that ranks lowest is ready. -/
theorem exists_find?_ready {rank : α → Nat} (hr : IsRanked needs rank) {left : List α}
    (h : left ≠ []) : ∃ x, left.find? (isReady needs left) = some x := by
  obtain ⟨m, hm⟩ : ∃ m, List.argmin rank left = some m := by
    cases hm : List.argmin rank left with
    | none => exact absurd (List.argmin_eq_none.1 hm) h
    | some m => exact ⟨m, rfl⟩
  apply Option.isSome_iff_exists.1
  rw [List.find?_isSome]
  refine ⟨m, List.argmin_mem hm, isReady_iff.2 fun y hy => ?_⟩
  by_contra hn
  have hlt := hr m y (by simpa using hn)
  have hle := List.le_of_mem_argmin hy hm
  omega

theorem schedule_isInOrder {rank : α → Nat} (hr : IsRanked needs rank) (left : List α) :
    IsInOrder needs (schedule needs left) := by
  fun_induction schedule needs left with
  | case1 left h =>
    cases left with
    | nil => trivial
    | cons x xs =>
      obtain ⟨y, hy⟩ := exists_find?_ready hr (List.cons_ne_nil x xs)
      simp [hy] at h
  | case2 left x h _ ih =>
    refine ⟨?_, ih⟩
    have hp := ((schedule_perm needs (left.eraseP (isReady needs left))).cons x).trans
      (perm_cons_eraseP h).symm
    rw [isReady_perm hp]
    exact List.find?_some h

/-- Of the orders in which everything comes after what it needs it is the smallest. -/
theorem schedule_eq_or_lex {needs : Nat → Nat → Bool} {left order : List Nat}
    (hs : left.Pairwise (· < ·)) (hp : order.Perm left) (ho : IsInOrder needs order) :
    schedule needs left = order ∨ List.Lex (· < ·) (schedule needs left) order := by
  induction order generalizing left with
  | nil =>
    obtain rfl := hp.nil_eq
    exact .inl (schedule_eq_self rfl)
  | cons y order ih =>
    have hy : y ∈ left := hp.mem_iff.1 (by simp)
    have hready : isReady needs left y = true := by rw [← isReady_perm hp]; exact ho.1
    obtain ⟨x, hx⟩ := Option.isSome_iff_exists.1 (List.find?_isSome.2 ⟨y, hy, hready⟩)
    obtain ⟨as, bs, hl, he, has⟩ := find?_ready_split hx
    rw [schedule_eq_cons hx]
    have hxy : x ≤ y := by
      rw [hl] at hy hs
      rcases List.mem_append.1 hy with h | h
      · simp [has y h] at hready
      · rcases List.mem_cons.1 h with rfl | h
        · exact Nat.le_refl _
        · exact Nat.le_of_lt ((List.pairwise_cons.1 (List.pairwise_append.1 hs).2.1).1 y h)
    rcases Nat.lt_or_eq_of_le hxy with hlt | rfl
    · exact .inr (.rel hlt)
    · have hp' : order.Perm (left.eraseP (isReady needs left)) :=
        (hp.trans (perm_cons_eraseP hx)).cons_inv
      have hs' : (left.eraseP (isReady needs left)).Pairwise (· < ·) :=
        hs.sublist List.eraseP_sublist
      rcases ih hs' hp' ho.2 with h | h
      · exact .inl (by rw [h])
      · exact .inr (.cons h)

end FieldRules

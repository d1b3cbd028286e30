import FieldRules.Graph
import FieldRules.Proofs.Schedule
import Mathlib.Data.Finset.Card
import Mathlib.Data.Finset.Range
import Mathlib.Data.List.Sort
import Mathlib.Logic.Relation

/-! Sorting the nodes of a graph by counting edges down. On a graph without cycles no edge is taken
away twice, and the order is the one in which the first ready node goes next. -/
namespace FieldRules
namespace Graph

/-- No way along the edges leads back to where it began. -/
def IsAcyclic (g : Graph) : Prop := ∀ a, ¬ Relation.TransGen (fun a b => (a, b) ∈ g.edges) a a

/-- The number of edges into a node from those that are not placed. -/
def degreeBut (g : Graph) (placed : List Nat) (b : Nat) : Nat :=
  g.edges.countP fun e => e.2 = b ∧ e.1 ∉ placed

/-- The nodes that are not placed. -/
def left (g : Graph) (placed : List Nat) : List Nat := g.nodes.filter (· ∉ placed)

theorem mem_left {g : Graph} {placed : List Nat} {b : Nat} :
    b ∈ g.left placed ↔ b < g.size ∧ b ∉ placed := by
  simp [left, nodes]

theorem left_pairwise (g : Graph) (placed : List Nat) : (g.left placed).Pairwise (· < ·) :=
  List.Pairwise.filter _ List.pairwise_lt_range

/-- Placing a node takes away the edges out of it. -/
theorem degreeBut_eq_add (g : Graph) {placed : List Nat} {a : Nat} (ha : a ∉ placed) (b : Nat) :
    g.degreeBut placed b = g.degreeBut (placed ++ [a]) b + (g.outgoing a).count b := by
  have h : ∀ es : List (Nat × Nat), es.countP (fun e => e.2 = b ∧ e.1 ∉ placed) =
      es.countP (fun e => e.2 = b ∧ e.1 ∉ placed ++ [a]) +
        ((es.filter (·.1 = a)).map Prod.snd).count b := by
    intro es
    induction es with
    | nil => rfl
    | cons e es ih =>
      simp only [List.countP_cons, ih, List.filter_cons, decide_eq_true_eq]
      by_cases he : e.1 = a
      · by_cases hb : e.2 = b <;> simp [he, hb, ha, Nat.add_assoc]
      · by_cases hb : e.2 = b <;> by_cases hp : e.1 ∈ placed <;> simp [he, hb, hp]
        omega
  exact h g.edges

/-- A node is ready where no edge into it is left. -/
theorem isReady_left_iff (g : Graph) {placed : List Nat} {b : Nat} :
    isReady g.needs (g.left placed) b = true ↔ g.degreeBut placed b = 0 := by
  rw [isReady_iff, degreeBut, List.countP_eq_zero]
  constructor
  · intro h e he
    have hlt := (g.lt_size e he).1
    rintro hb
    obtain ⟨rfl, hp⟩ := of_decide_eq_true hb
    have := h e.1 (mem_left.2 ⟨hlt, hp⟩)
    simp [needs, he] at this
  · intro h y hy
    by_contra hn
    have he : (y, b) ∈ g.edges := by simpa [needs] using hn
    exact h _ he (by simp [(mem_left.1 hy).2])

namespace Sorting

theorem mem_push {b x : Nat} {as : List Nat} : x ∈ push b as ↔ x = b ∨ x ∈ as := by
  induction as with
  | nil => simp [push]
  | cons a as ih =>
    rw [push]
    split
    · simp
    · simp only [List.mem_cons, ih]
      tauto

theorem push_pairwise {b : Nat} {as : List Nat} (h : as.Pairwise (· < ·)) (hb : b ∉ as) :
    (push b as).Pairwise (· < ·) := by
  induction as with
  | nil => simp [push]
  | cons a as ih =>
    obtain ⟨ha, has⟩ := List.pairwise_cons.1 h
    have hba : b ≠ a := by rintro rfl; simp at hb
    rw [push]
    split
    · refine List.pairwise_cons.2 ⟨fun x hx => ?_, h⟩
      rcases List.mem_cons.1 hx with rfl | hx
      · omega
      · have := ha x hx
        omega
    · refine List.pairwise_cons.2 ⟨fun x hx => ?_, ih has (by simp_all)⟩
      rcases mem_push.1 hx with rfl | hx
      · omega
      · exact ha x hx

/-- Taking away edges that are there. Each of the nodes that lose their last edge is ready. -/
theorem releaseAll_spec {size : Nat} {d : Nat → Nat} {bs : List Nat} {s : Sorting}
    (hbs : ∀ b ∈ bs, b < size) (hd : ∀ b < size, s.degrees[b]? = some (d b + bs.count b))
    (hs : s.ready.Pairwise (· < ·)) (hr : ∀ b ∈ s.ready, b ∉ bs) :
    ∃ t, s.releaseAll bs = some t ∧ t.placed = s.placed ∧ (∀ b < size, t.degrees[b]? = some (d b)) ∧
      t.ready.Pairwise (· < ·) ∧ ∀ b, b ∈ t.ready ↔ b ∈ s.ready ∨ b ∈ bs ∧ d b = 0 := by
  induction bs generalizing s with
  | nil => exact ⟨s, rfl, rfl, by simpa using hd, hs, by simp⟩
  | cons b bs ih =>
    have hb := hbs b (by simp)
    have hdb : s.degrees[b]? = some (d b + bs.count b + 1) := by simpa [Nat.add_assoc] using hd b hb
    have hbr : b ∉ s.ready := fun h => hr b h (by simp)
    let s' : Sorting := { s with
      degrees := s.degrees.set b (d b + bs.count b)
      ready := if d b + bs.count b = 0 then push b s.ready else s.ready }
    have hrel : s.release b = some s' := by simp [release, hdb, s']
    have hd' : ∀ x < size, s'.degrees[x]? = some (d x + bs.count x) := by
      intro x hx
      have hlt : b < s.degrees.length := (List.getElem?_eq_some_iff.1 hdb).1
      by_cases hxb : b = x
      · subst hxb
        simp [s', hlt]
      · have := hd x hx
        rw [List.count_cons_of_ne hxb] at this
        simpa [s', List.getElem?_set_ne hxb] using this
    have hs' : s'.ready.Pairwise (· < ·) := by
      simp only [s']
      split
      · exact push_pairwise hs hbr
      · exact hs
    have hmem : ∀ x, x ∈ s'.ready ↔ x ∈ s.ready ∨ x = b ∧ d b + bs.count b = 0 := by
      intro x
      simp only [s']
      split
      · rw [mem_push]; tauto
      · tauto
    have hr' : ∀ x ∈ s'.ready, x ∉ bs := by
      intro x hx
      rcases (hmem x).1 hx with hx | ⟨rfl, h0⟩
      · exact fun h => hr x hx (by simp [h])
      · exact List.count_eq_zero.1 (by omega)
    obtain ⟨t, ht, hp, hdt, hst, hmt⟩ := ih (fun x hx => hbs x (by simp [hx])) hd' hs' hr'
    refine ⟨t, ?_, hp, hdt, hst, fun x => ?_⟩
    · simp only [releaseAll, List.foldlM_cons, hrel] at ht ⊢
      exact ht
    · rw [hmt, hmem, List.mem_cons]
      constructor
      · rintro ((h | ⟨rfl, h⟩) | ⟨h, h0⟩)
        · exact .inl h
        · exact .inr ⟨.inl rfl, by omega⟩
        · exact .inr ⟨.inr h, h0⟩
      · rintro (h | ⟨rfl | h, h0⟩)
        · exact .inl (.inl h)
        · by_cases hx : x ∈ bs
          · exact .inr ⟨hx, h0⟩
          · exact .inl (.inr ⟨rfl, by simp [h0, List.count_eq_zero.2 hx]⟩)
        · exact .inr ⟨h, h0⟩

/-- What every sorting on its way keeps: the degrees are those of the nodes that are left, and the
ready nodes are the ones left that nothing left stands before. -/
structure IsValid (g : Graph) (s : Sorting) : Prop where
  degrees : ∀ b < g.size, s.degrees[b]? = some (g.degreeBut s.placed b)
  ready : s.ready = (g.left s.placed).filter (isReady g.needs (g.left s.placed))
  placed : ∀ b ∈ s.placed, g.degreeBut s.placed b = 0

theorem IsValid.mem_ready {g : Graph} {s : Sorting} (h : s.IsValid g) {b : Nat} :
    b ∈ s.ready ↔ b < g.size ∧ b ∉ s.placed ∧ g.degreeBut s.placed b = 0 := by
  rw [h.ready, List.mem_filter, mem_left, isReady_left_iff, and_assoc]

theorem start_isValid (g : Graph) : (start g).IsValid g := by
  have hd : ∀ b, g.degreeBut [] b = g.inDegree b := fun b => by simp [degreeBut, inDegree]
  have hl : g.left [] = g.nodes := by simp [left]
  refine ⟨fun b hb => ?_, ?_, by simp [start]⟩
  · simp [start, hd, nodes, hb]
  · simp only [start, hl]
    refine List.filter_congr fun b _ => ?_
    rw [Bool.eq_iff_iff, ← hl, isReady_left_iff, hd, decide_eq_true_iff]

/-- One turn of the loop: the least ready node is placed, and no edge is missing. -/
theorem IsValid.step {g : Graph} {s : Sorting} (h : s.IsValid g) {a : Nat} {ready : List Nat}
    (hs : s.ready = a :: ready) :
    ∃ t, releaseAll { s with ready := ready, placed := s.placed ++ [a] } (g.outgoing a) = some t ∧
      t.IsValid g ∧ t.placed = s.placed ++ [a] := by
  obtain ⟨ha, hap, ha0⟩ := h.mem_ready.1 (by simp [hs] : a ∈ s.ready)
  have hsplit := g.degreeBut_eq_add hap
  have hsorted : (a :: ready).Pairwise (· < ·) := by
    rw [← hs, h.ready]
    exact (g.left_pairwise s.placed).filter _
  have hready : ∀ b, b ∈ ready ↔ b ≠ a ∧ b ∈ s.ready := by
    intro b
    rw [hs, List.mem_cons]
    have : b ∈ ready → b ≠ a := fun hb => ((List.pairwise_cons.1 hsorted).1 b hb).ne'
    tauto
  have hcount : ∀ b, g.degreeBut s.placed b = 0 → b ∉ g.outgoing a := by
    intro b hb
    have := hsplit b
    exact List.count_eq_zero.1 (by omega)
  have hlt : ∀ b ∈ g.outgoing a, b < g.size := by
    intro b hb
    obtain ⟨e, he, rfl⟩ := List.mem_map.1 hb
    exact (g.lt_size e (List.mem_filter.1 he).1).2
  have hdeg : ∀ b < g.size, s.degrees[b]? =
      some (g.degreeBut (s.placed ++ [a]) b + (g.outgoing a).count b) := by
    intro b hb
    rw [← hsplit]
    exact h.degrees b hb
  have hfree : ∀ b ∈ ready, b ∉ g.outgoing a := fun b hb =>
    hcount b (h.mem_ready.1 ((hready b).1 hb).2).2.2
  let s' : Sorting := { s with ready := ready, placed := s.placed ++ [a] }
  obtain ⟨t, ht, hp, hd, hst, hm⟩ :=
    @releaseAll_spec _ _ _ s' hlt hdeg (List.pairwise_cons.1 hsorted).2 hfree
  have hp : t.placed = s.placed ++ [a] := hp
  refine ⟨t, ht, ⟨by rw [hp]; exact hd, ?_, ?_⟩, hp⟩
  · refine hst.eq_of_mem_iff ((g.left_pairwise t.placed).filter _) fun b => ?_
    rw [hm, hready, h.mem_ready, List.mem_filter, mem_left, isReady_left_iff, hp, List.mem_append,
      List.mem_singleton]
    have hb := hsplit b
    constructor
    · rintro (⟨hba, hbs, hbp, h0⟩ | ⟨hbo, h0⟩)
      · exact ⟨⟨hbs, by tauto⟩, by omega⟩
      · -- An edge out of the placed node leads to one that is neither placed nor itself.
        have hpos := List.count_pos_iff.2 hbo
        refine ⟨⟨hlt b hbo, ?_⟩, h0⟩
        rintro (hbp | rfl)
        · have := h.placed b hbp
          omega
        · omega
    · rintro ⟨⟨hbs, hbp⟩, h0⟩
      by_cases hbo : b ∈ g.outgoing a
      · exact .inr ⟨hbo, h0⟩
      · rw [List.count_eq_zero.2 hbo] at hb
        exact .inl ⟨by tauto, hbs, by tauto, by omega⟩
  · intro b hb
    rw [hp] at hb ⊢
    have := hsplit b
    rcases List.mem_append.1 hb with hb | hb
    · have := h.placed b hb
      omega
    · obtain rfl := List.mem_singleton.1 hb
      omega

/-- The ready node that is placed is the first ready one of those left. -/
theorem IsValid.find?_left {g : Graph} {s : Sorting} (h : s.IsValid g) :
    (g.left s.placed).find? (isReady g.needs (g.left s.placed)) = s.ready.head? := by
  rw [h.ready, List.head?_filter]

theorem left_concat {g : Graph} {placed : List Nat} {a : Nat} {p : Nat → Bool}
    (h : (g.left placed).find? p = some a) :
    g.left (placed ++ [a]) = (g.left placed).eraseP p := by
  obtain ⟨as, bs, hl, he, _⟩ := find?_ready_split h
  have hn : (g.left placed).Nodup := (g.left_pairwise placed).imp Nat.ne_of_lt
  have hf : g.left (placed ++ [a]) = (g.left placed).filter (· ≠ a) := by
    simp [left, List.filter_filter, and_comm]
  rw [hf, he, hl]
  rw [hl, List.nodup_middle, List.nodup_cons, List.mem_append] at hn
  have hne : ∀ x, x ∈ as ∨ x ∈ bs → x ≠ a := by rintro x hx rfl; exact hn.1 hx
  rw [List.filter_append, List.filter_cons_of_neg (by simp),
    List.filter_eq_self.2 fun x hx => by simpa using hne x (.inl hx),
    List.filter_eq_self.2 fun x hx => by simpa using hne x (.inr hx)]

theorem IsValid.run_eq {g : Graph} {rank : Nat → Nat} (hr : IsRanked g.needs rank) {s : Sorting}
    (h : s.IsValid g) :
    s.run g = some (s.placed ++ schedule g.needs (g.left s.placed)) := by
  induction hw : s.work using Nat.strong_induction_on generalizing s with
  | _ w ih =>
    rw [run]
    split
    · rename_i hs
      have hf := h.find?_left
      rw [hs, List.head?_nil] at hf
      cases hl : g.left s.placed with
      | nil => rw [schedule_eq_self rfl, List.append_nil]
      | cons x xs =>
        obtain ⟨y, hy⟩ := exists_find?_ready hr (hl ▸ List.cons_ne_nil x xs)
        rw [hf] at hy
        exact absurd hy (by simp)
    · rename_i a ready hs
      obtain ⟨t, ht, hvalid, hp⟩ := h.step hs
      have hf := h.find?_left
      rw [hs, List.head?_cons] at hf
      have hlt : t.work < w := by
        have := work_releaseAll ht
        simp only [work, hs, List.length_cons] at this hw ⊢
        omega
      split
      · rename_i hn
        rw [ht] at hn
        exact absurd hn (by simp)
      · rename_i t' ht'
        obtain rfl : t = t' := Option.some.inj (ht.symm.trans ht')
        rw [ih t.work hlt hvalid rfl, hp, left_concat hf, schedule_eq_cons hf]
        simp

end Sorting

theorem sort_eq_schedule {g : Graph} {rank : Nat → Nat} (hr : IsRanked g.needs rank) :
    g.sort = some (schedule g.needs g.nodes) := by
  have h := (Sorting.start_isValid g).run_eq hr
  simpa [sort, Sorting.start, left] using h

/-- In a graph without cycles the number of nodes before a node grows along the edges. -/
theorem IsAcyclic.exists_rank {g : Graph} (h : g.IsAcyclic) :
    ∃ rank, IsRanked g.needs rank := by
  classical
  let before (b : Nat) : Finset Nat :=
    (Finset.range g.size).filter fun a => Relation.TransGen (fun a b => (a, b) ∈ g.edges) a b
  refine ⟨fun b => (before b).card, fun b a hab => Finset.card_lt_card ?_⟩
  have he : (a, b) ∈ g.edges := by simpa [needs] using hab
  refine (Finset.ssubset_iff_of_subset fun x hx => ?_).2 ⟨a, ?_, ?_⟩
  · obtain ⟨hx, hxa⟩ := Finset.mem_filter.1 hx
    exact Finset.mem_filter.2 ⟨hx, hxa.tail he⟩
  · exact Finset.mem_filter.2 ⟨Finset.mem_range.2 (g.lt_size _ he).1, .single he⟩
  · exact fun ha => h a (Finset.mem_filter.1 ha).2

theorem isAcyclic_of_rank {g : Graph} {rank : Nat → Nat} (hr : IsRanked g.needs rank) :
    g.IsAcyclic := by
  have hlt : ∀ a b, Relation.TransGen (fun a b => (a, b) ∈ g.edges) a b → rank a < rank b := by
    intro a b h
    induction h with
    | single h => exact hr _ _ (by simpa [needs] using h)
    | tail _ h ih => exact ih.trans (hr _ _ (by simpa [needs] using h))
  exact fun a h => Nat.lt_irrefl _ (hlt a a h)

/-- A node is found that cannot be placed exactly where there is a cycle. -/
theorem stuck?_eq_none_iff (g : Graph) : g.stuck? = none ↔ g.IsAcyclic := by
  rw [stuck?, firstUnready_eq_none_iff]
  constructor
  · intro h
    have hmem : ∀ x < g.size, x ∈ schedule g.needs g.nodes := fun x hx =>
      (schedule_perm g.needs g.nodes).mem_iff.2 (by simpa [nodes] using hx)
    have hr : IsRanked g.needs fun x => (schedule g.needs g.nodes).idxOf x := by
      intro b a hab
      have he : (a, b) ∈ g.edges := by simpa [needs] using hab
      exact h.idxOf_lt (hmem b (g.lt_size _ he).2) (hmem a (g.lt_size _ he).1) hab
    exact isAcyclic_of_rank hr
  · intro h
    obtain ⟨rank, hr⟩ := h.exists_rank
    exact schedule_isInOrder hr g.nodes

end Graph
end FieldRules

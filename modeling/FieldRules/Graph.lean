import FieldRules.Schedule

/-! Graphs of what comes before what, and the order of their nodes in which the least one that is
ready always goes next. -/
namespace FieldRules

/-- The nodes are the numbers below `size`. An edge leads from a node to one that comes after it. -/
structure Graph where
  size : Nat
  edges : List (Nat × Nat)
  lt_size : ∀ e ∈ edges, e.1 < size ∧ e.2 < size
  deriving DecidableEq, Repr

namespace Graph

def nodes (g : Graph) : List Nat := List.range g.size

/-- The number of edges into a node. -/
def inDegree (g : Graph) (b : Nat) : Nat := g.edges.countP (·.2 = b)

/-- The nodes that the edges out of a node lead to. -/
def outgoing (g : Graph) (a : Nat) : List Nat := (g.edges.filter (·.1 = a)).map Prod.snd

def needs (g : Graph) (b a : Nat) : Bool := (a, b) ∈ g.edges

/-- One node for each field, and an edge from every field among them to each that depends on it. -/
def ofDependencies (fields : List (String × List String)) : Graph where
  size := fields.length
  edges := fields.zipIdx.flatMap fun n =>
    n.1.2.filterMap fun d => ((fields.map Prod.fst).idxOf? d).map (·, n.2)
  lt_size := by
    intro e he
    obtain ⟨n, hn, he⟩ := List.mem_flatMap.1 he
    obtain ⟨d, _, he⟩ := List.mem_filterMap.1 he
    obtain ⟨i, hi, rfl⟩ := Option.map_eq_some_iff.1 he
    obtain ⟨hi, _⟩ := List.findIdx?_eq_some_iff_getElem.1 hi
    exact ⟨by simpa using hi, by simpa using List.snd_lt_of_mem_zipIdx hn⟩

/-- A sorting on its way: how many edges into each node come from nodes that are not placed yet,
the nodes that are ready, least first, and those that are placed. -/
structure Sorting where
  degrees : List Nat
  ready : List Nat
  placed : List Nat
  deriving DecidableEq, Repr

namespace Sorting

def start (g : Graph) : Sorting where
  degrees := g.nodes.map g.inDegree
  ready := g.nodes.filter fun b => g.inDegree b = 0
  placed := []

/-- Puts a node among others in ascending order. -/
def push (b : Nat) : List Nat → List Nat
  | [] => [b]
  | a :: as => if b ≤ a then b :: a :: as else a :: push b as

/-- Takes away an edge into a node, which is ready with the last one. None where no edge is left
to take away. -/
def release (s : Sorting) (b : Nat) : Option Sorting :=
  match s.degrees[b]? with
  | some (d + 1) =>
    some { s with
      degrees := s.degrees.set b d
      ready := if d = 0 then push b s.ready else s.ready }
  | _ => none

def releaseAll (s : Sorting) (bs : List Nat) : Option Sorting := bs.foldlM release s

/-- The edges that are left and the nodes that are ready. -/
def work (s : Sorting) : Nat := s.ready.length + s.degrees.foldr (· + ·) 0

theorem length_push (b : Nat) (as : List Nat) : (push b as).length = as.length + 1 := by
  induction as with
  | nil => rfl
  | cons a as ih => rw [push]; split <;> simp [ih]

theorem sum_set_of_succ {ds : List Nat} {b d : Nat} (h : ds[b]? = some (d + 1)) :
    (ds.set b d).foldr (· + ·) 0 + 1 = ds.foldr (· + ·) 0 := by
  induction ds generalizing b with
  | nil => simp at h
  | cons e ds ih =>
    cases b with
    | zero => simp at h; simp [h]; omega
    | succ b => have := ih (by simpa using h); simp; omega

theorem work_release {s s' : Sorting} {b : Nat} (h : s.release b = some s') :
    s'.work ≤ s.work := by
  simp only [release] at h
  split at h
  · rename_i d hd
    obtain rfl := Option.some.inj h
    have := sum_set_of_succ hd
    have hr : (if d = 0 then push b s.ready else s.ready).length ≤ s.ready.length + 1 := by
      split <;> simp [length_push]
    simp only [work]
    omega
  · simp at h

theorem work_releaseAll {s s' : Sorting} {bs : List Nat} (h : s.releaseAll bs = some s') :
    s'.work ≤ s.work := by
  induction bs generalizing s with
  | nil => simp [releaseAll] at h; simp [h]
  | cons b bs ih =>
    obtain ⟨t, ht, hs⟩ := Option.bind_eq_some_iff.1 (show (s.release b).bind (·.releaseAll bs) = _ from h)
    exact Nat.le_trans (ih hs) (work_release ht)

/-- Places the least node that is ready and takes away the edges out of it, as long as there is
one. -/
def run (g : Graph) (s : Sorting) : Option (List Nat) :=
  match hs : s.ready with
  | [] => some s.placed
  | a :: ready =>
    match h : releaseAll { s with ready := ready, placed := s.placed ++ [a] } (g.outgoing a) with
    | none => none
    | some t =>
      have : t.work < s.work := by
        have := work_releaseAll h
        simp only [work, hs, List.length_cons] at *
        omega
      run g t
termination_by s.work

end Sorting

/-- The nodes in order. None where an edge would be taken away twice. -/
def sort (g : Graph) : Option (List Nat) := (Sorting.start g).run g

/-- A node that cannot come after all that it needs, if there is one. -/
def stuck? (g : Graph) : Option Nat := firstUnready g.needs (schedule g.needs g.nodes)

example : (ofDependencies [("x", ["z"]), ("y", []), ("z", ["missing"])]).sort = some [1, 2, 0] := by
  decide +kernel

end Graph
end FieldRules

/-! The error codes that were raised: each once, in the order of their first raising. -/
namespace FieldRules

structure Codes where
  toList : List String
  nodup : toList.Nodup
  deriving DecidableEq, Repr

namespace Codes

@[ext] theorem ext {a b : Codes} (h : a.toList = b.toList) : a = b := by
  cases a; cases b; simp_all

def empty : Codes := ⟨[], List.nodup_nil⟩

instance : EmptyCollection Codes := ⟨empty⟩

def add (cs : Codes) (c : String) : Codes :=
  if h : c ∈ cs.toList then cs
  else ⟨cs.toList ++ [c], by
    rw [List.nodup_append]
    exact ⟨cs.nodup, by simp, by rintro a ha b hb rfl; simp_all⟩⟩

def addAll (cs : Codes) (new : List String) : Codes := new.foldl add cs

def ofList (cs : List String) : Codes := empty.addAll cs

def isEmpty (cs : Codes) : Bool := cs.toList.isEmpty
def size (cs : Codes) : Nat := cs.toList.length

@[simp] theorem toList_empty : (∅ : Codes).toList = [] := rfl

theorem toList_add (cs : Codes) (c : String) :
    (cs.add c).toList = if c ∈ cs.toList then cs.toList else cs.toList ++ [c] := by
  simp only [add]; split <;> rfl

@[simp] theorem addAll_nil (cs : Codes) : cs.addAll [] = cs := rfl
@[simp] theorem addAll_cons (cs : Codes) (c : String) (new : List String) :
    cs.addAll (c :: new) = (cs.add c).addAll new := rfl
theorem addAll_append (cs : Codes) (xs ys : List String) :
    cs.addAll (xs ++ ys) = (cs.addAll xs).addAll ys := List.foldl_append

theorem toList_addAll (cs : Codes) (new : List String) :
    (cs.addAll new).toList = cs.toList ++ (new.removeAll cs.toList).eraseDups := by
  induction new generalizing cs with
  | nil => simp [List.removeAll]
  | cons c new ih =>
    rw [addAll_cons, ih, toList_add, List.cons_removeAll]
    by_cases h : c ∈ cs.toList
    · simp [h]
    · have hrest : new.removeAll (cs.toList ++ [c]) =
          (new.removeAll cs.toList).filter fun b => !b == c := by
        rw [List.removeAll, List.removeAll, List.filter_filter]
        refine List.filter_congr fun b _ => ?_
        simp [Bool.and_comm, Bool.beq_eq_decide_eq]
      simp [h, hrest, List.eraseDups_cons]

/-- The codes of a list, without those that stand in it again. -/
theorem toList_ofList (cs : List String) : (ofList cs).toList = cs.eraseDups := by
  rw [ofList, toList_addAll]
  simp [empty]

end Codes

/-- What checking one field came to. -/
structure Verdict where
  unset : Bool
  codes : Codes
  deriving DecidableEq, Repr

namespace Verdict

def present (codes : Codes) : Verdict := ⟨false, codes⟩

/-- An unset field raises the code for missing fields, if its rule has one, and no other. -/
def missing (code : Option String) : Verdict := ⟨true, Codes.ofList code.toList⟩

def isValid (v : Verdict) : Bool := v.codes.isEmpty

end Verdict
end FieldRules

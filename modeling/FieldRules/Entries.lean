/-! Entries are values under names, in the order in which the names were first put. -/
namespace FieldRules

abbrev Entries (α : Type) := List (String × α)

namespace Entries
variable {α : Type}

def get? (key : String) : Entries α → Option α
  | [] => none
  | (k, v) :: es => if k = key then some v else get? key es

/-- A name that is there keeps its place. -/
def put (key : String) (value : α) : Entries α → Entries α
  | [] => [(key, value)]
  | (k, v) :: es => if k = key then (k, value) :: es else (k, v) :: put key value es

def putAll (es new : Entries α) : Entries α := new.foldl (fun es e => put e.1 e.2 es) es

def ofList (es : Entries α) : Entries α := putAll [] es

def keys (es : Entries α) : List String := es.map Prod.fst

def without (key : String) (es : Entries α) : Entries α := es.filter (·.1 ≠ key)

@[simp] theorem get?_put_self (key : String) (v : α) (es : Entries α) :
    get? key (put key v es) = some v := by
  induction es with
  | nil => simp [put, get?]
  | cons e es ih => by_cases h : e.1 = key <;> simp [put, get?, h, ih]

theorem get?_put_of_ne {key other : String} (h : key ≠ other) (v : α) (es : Entries α) :
    get? other (put key v es) = get? other es := by
  induction es with
  | nil => simp [put, get?, h]
  | cons e es ih =>
    by_cases hk : e.1 = key
    · subst hk; simp [put, get?, h]
    · simp [put, get?, hk, ih]

/-- A new name goes to the end. -/
theorem put_of_not_mem {key : String} {es : Entries α} (h : key ∉ keys es) (v : α) :
    put key v es = es ++ [(key, v)] := by
  induction es with
  | nil => rfl
  | cons e es ih =>
    simp only [keys, List.map_cons, List.mem_cons, not_or] at h
    rw [put, if_neg (Ne.symm h.1), ih h.2, List.cons_append]

theorem put_put_self (key : String) (v w : α) (es : Entries α) :
    put key w (put key v es) = put key w es := by
  induction es with
  | nil => simp [put]
  | cons e es ih => by_cases h : e.1 = key <;> simp [put, h, ih]

/-- A name with its own value changes nothing. -/
theorem put_of_get?_eq_some {key : String} {v : α} {es : Entries α} (h : get? key es = some v) :
    put key v es = es := by
  induction es with
  | nil => simp [get?] at h
  | cons e es ih =>
    by_cases hk : e.1 = key
    · simp only [get?, hk, if_true, Option.some.injEq] at h
      simp [put, hk, ← h, Prod.ext_iff]
    · simp only [get?, hk, if_false] at h
      simp [put, hk, ih h]

theorem put_comm {key other : String} (hne : key ≠ other) (v w : α) {es : Entries α}
    (hk : (get? key es).isSome) (ho : (get? other es).isSome) :
    put other w (put key v es) = put key v (put other w es) := by
  induction es with
  | nil => simp [get?] at hk
  | cons e es ih =>
    by_cases h : e.1 = key
    · subst h
      simp [put, hne]
    · by_cases h' : e.1 = other
      · subst h'
        simp [put, h]
      · simp only [get?, h, h', if_false] at hk ho
        simp [put, h, h', ih hk ho]

theorem get?_isSome_iff {key : String} {es : Entries α} : (get? key es).isSome ↔ key ∈ keys es := by
  induction es with
  | nil => simp [get?, keys]
  | cons e es ih =>
    by_cases h : e.1 = key
    · simp [get?, keys, h]
    · simpa [get?, keys, h, Ne.symm h] using ih

theorem get?_eq_some_iff {key : String} {v : α} {es : Entries α} (hn : (keys es).Nodup) :
    get? key es = some v ↔ (key, v) ∈ es := by
  induction es with
  | nil => simp [get?]
  | cons e es ih =>
    obtain ⟨he, hn⟩ := List.nodup_cons.1 hn
    by_cases hk : e.1 = key
    · subst hk
      have hv : (e.1, v) ∉ es := fun hm => he (List.mem_map.2 ⟨_, hm, rfl⟩)
      simp [get?, hv, Prod.ext_iff, eq_comm]
    · simp [get?, hk, ih hn, Prod.ext_iff, Ne.symm hk]

/-- Where no name stands twice, the order of the entries does not matter. -/
theorem get?_perm {es fs : Entries α} (hp : es.Perm fs) (hn : (keys es).Nodup) (key : String) :
    get? key es = get? key fs := by
  have hn' : (keys fs).Nodup := (hp.map Prod.fst).nodup_iff.1 hn
  apply Option.ext
  intro v
  rw [get?_eq_some_iff hn, get?_eq_some_iff hn', hp.mem_iff]

theorem without_cons (key : String) (e : String × α) (es : Entries α) :
    without key (e :: es) = if e.1 = key then without key es else e :: without key es := by
  by_cases hk : e.1 = key <;> simp [without, hk]

theorem get?_without (key other : String) (es : Entries α) :
    get? other (without key es) = if key = other then none else get? other es := by
  induction es with
  | nil => simp [without, get?]
  | cons e es ih =>
    by_cases hk : e.1 = key
    · rw [without_cons, if_pos hk, ih, get?, hk]
      by_cases h : key = other <;> simp [h]
    · rw [without_cons, if_neg hk, get?, get?, ih]
      by_cases h : e.1 = other
      · rw [if_pos h, if_neg fun hko => hk (h.trans hko.symm), if_pos h]
      · rw [if_neg h, if_neg h]

theorem length_without_lt {key : String} {es : Entries α} (h : (get? key es).isSome) :
    (without key es).length < es.length := by
  obtain ⟨e, he, hk⟩ := List.mem_map.1 (get?_isSome_iff.1 h)
  rw [without, List.length_filter_lt_length_iff_exists]
  exact ⟨e, he, by simp [hk]⟩

end Entries
end FieldRules

import FieldRules.Proofs.Trimming
import FieldRules.Value.Json

/-! Values written as JSON data and read back. What is written of a value is a copy of it, with
nilables bare and with null for what JSON data cannot hold. Data is written again as it was read if
every integer in it fits 64 bits with its sign. -/
namespace FieldRules

theorem eq_map_of_cons {α β : Type} {f : α → β} {F : List α → List β} (hnil : F [] = [])
    (hcons : ∀ a as, F (a :: as) = f a :: F as) (as : List α) : F as = as.map f := by
  induction as with
  | nil => exact hnil
  | cons a as ih => rw [hcons, ih, List.map_cons]

theorem forall₂_map_iff_eq {α β γ : Type} {R : β → γ → Prop} {f : α → β} {g : α → γ} {as : List α}
    {cs : List γ} (h : ∀ a ∈ as, ∀ c, R (f a) c ↔ c = g a) :
    List.Forall₂ R (as.map f) cs ↔ cs = as.map g := by
  induction as generalizing cs with
  | nil => simp
  | cons a as ih =>
    have hrest : ∀ cs, List.Forall₂ R (as.map f) cs ↔ cs = as.map g :=
      fun cs => ih fun a' ha => h a' (List.mem_cons_of_mem a ha)
    cases cs with
    | nil => simp
    | cons c cs => simp [h a List.mem_cons_self, hrest]

theorem exists_mem_of_forall₂ {α β : Type} {R : α → β → Prop} {as : List α} {bs : List β}
    (h : List.Forall₂ R as bs) {b : β} (hb : b ∈ bs) : ∃ a ∈ as, R a b := by
  induction h with
  | nil => simp at hb
  | cons hab _ ih =>
    rcases List.mem_cons.1 hb with rfl | hb
    · exact ⟨_, List.mem_cons_self, hab⟩
    · obtain ⟨a, ha, hr⟩ := ih hb
      exact ⟨a, List.mem_cons_of_mem _ ha, hr⟩

theorem Entries.eq_of_keys_of_values {α : Type} {es fs : Entries α}
    (hk : Entries.keys es = Entries.keys fs) (hv : es.map Prod.snd = fs.map Prod.snd) : es = fs := by
  induction es generalizing fs with
  | nil => exact (List.map_eq_nil_iff.1 hv.symm).symm
  | cons e es ih =>
    cases fs with
    | nil => simp at hv
    | cons f fs =>
      obtain ⟨hek, hk⟩ := List.cons.inj hk
      obtain ⟨hev, hv⟩ := List.cons.inj hv
      rw [ih hk hv, Prod.ext hek hev]

theorem Binary64.same_self {x : Binary64} (h : x.isFinite = true) : x.same x = true := by
  simp [same, isNaN_of_isFinite h]

namespace Json

/-- Of an array or an object it may be assumed of all that stands in it. -/
theorem nested_induction {motive : Json → Prop}
    (leaf : ∀ j, (∀ xs, j ≠ .array xs) → (∀ es, j ≠ .object es) → motive j)
    (array : ∀ xs : List Json, (∀ x ∈ xs, motive x) → motive (.array xs))
    (object : ∀ es : Entries Json, (∀ x ∈ es.map Prod.snd, motive x) → motive (.object es)) :
    ∀ j, motive j
  | .array xs => array xs fun x hx =>
    have hlt : sizeOf x < sizeOf (Json.array xs) :=
      Nat.lt_of_lt_of_le (List.sizeOf_lt_of_mem hx) (by simp)
    nested_induction leaf array object x
  | .object es => object es fun x hx =>
    have hlt : sizeOf x < sizeOf (Json.object es) := by
      obtain ⟨⟨k, j⟩, he, rfl⟩ := List.mem_map.1 hx
      have hmem := List.sizeOf_lt_of_mem he
      simp at hmem ⊢
      omega
    nested_induction leaf array object x
  | .null => leaf _ (by simp) (by simp)
  | .bool _ => leaf _ (by simp) (by simp)
  | .integer _ _ => leaf _ (by simp) (by simp)
  | .float _ _ => leaf _ (by simp) (by simp)
  | .string _ => leaf _ (by simp) (by simp)
termination_by j => sizeOf j
decreasing_by all_goals exact hlt

/-- The node stands somewhere in the data. -/
inductive Contains : Json → Json → Prop
  | self (j : Json) : Contains j j
  | item {xs : List Json} {x j : Json} (hx : x ∈ xs) (h : Contains x j) : Contains (.array xs) j
  | entry {es : Entries Json} {x j : Json} (hx : x ∈ es.map Prod.snd) (h : Contains x j) :
      Contains (.object es) j

/-- No integer in the data is too large for 64 bits with a sign. -/
def FitsSigned (j : Json) : Prop :=
  ∀ i fits, j.Contains (.integer i fits) → i ≤ 0x7fffffffffffffff

/-- The same data, but for the order of the entries of objects. Floats are compared as numbers. -/
inductive Alike : Json → Json → Prop
  | null : Alike .null .null
  | bool (b : Bool) : Alike (.bool b) (.bool b)
  | integer (i : Int) (fits : -0x8000000000000000 ≤ i ∧ i < 0x10000000000000000) :
      Alike (.integer i fits) (.integer i fits)
  | float {x y : Binary64} (hx : x.isFinite = true) (hy : y.isFinite = true)
      (h : x.same y = true) : Alike (.float x hx) (.float y hy)
  | string (s : String) : Alike (.string s) (.string s)
  | array {xs ys : List Json} (h : List.Forall₂ Alike xs ys) : Alike (.array xs) (.array ys)
  | object {es fs gs : Entries Json} (hp : gs.Perm fs)
      (hk : Entries.keys es = Entries.keys gs)
      (h : List.Forall₂ Alike (es.map Prod.snd) (gs.map Prod.snd)) : Alike (.object es) (.object fs)

theorem fitsSigned_integer_iff {i : Int} {fits} :
    (integer i fits).FitsSigned ↔ i ≤ 0x7fffffffffffffff := by
  constructor
  · intro h
    exact h i fits (.self _)
  · rintro h _ _ ⟨⟩
    exact h

theorem fitsSigned_array_iff {xs : List Json} :
    (array xs).FitsSigned ↔ ∀ x ∈ xs, x.FitsSigned := by
  constructor
  · intro h x hx i fits hi
    exact h i fits (.item hx hi)
  · intro h i fits hi
    cases hi with
    | item hx hi => exact h _ hx i fits hi

theorem fitsSigned_object_iff {es : Entries Json} :
    (object es).FitsSigned ↔ ∀ x ∈ es.map Prod.snd, x.FitsSigned := by
  constructor
  · intro h x hx i fits hi
    exact h i fits (.entry hx hi)
  · intro h i fits hi
    cases hi with
    | entry hx hi => exact h _ hx i fits hi

theorem Alike.refl (j : Json) : j.Alike j := by
  induction j using nested_induction with
  | leaf j ha ho =>
    cases j with
    | null => exact .null
    | bool b => exact .bool b
    | integer i fits => exact .integer i fits
    | float x hx => exact .float hx hx (Binary64.same_self hx)
    | string s => exact .string s
    | array xs => exact absurd rfl (ha xs)
    | object es => exact absurd rfl (ho es)
  | array xs ih => exact .array (List.forall₂_same.2 ih)
  | object es ih => exact .object (.refl es) rfl (List.forall₂_same.2 ih)

/-- Whether the integers fit can be told from data that is alike. -/
theorem Alike.fitsSigned {a b : Json} (h : a.Alike b) (ha : a.FitsSigned) : b.FitsSigned := by
  induction a using nested_induction generalizing b with
  | leaf a hxs hes =>
    cases h with
    | integer i fits => exact ha
    | array h => exact absurd rfl (hxs _)
    | object _ _ _ => exact absurd rfl (hes _)
    | _ => exact fun i fits hi => nomatch hi
  | array xs ih =>
    cases h with
    | array h =>
      apply fitsSigned_array_iff.2
      intro y hy
      obtain ⟨x, hx, hxy⟩ := exists_mem_of_forall₂ h hy
      exact ih x hx hxy (fitsSigned_array_iff.1 ha x hx)
  | object es ih =>
    cases h with
    | object hp _ h =>
      apply fitsSigned_object_iff.2
      intro y hy
      obtain ⟨x, hx, hxy⟩ := exists_mem_of_forall₂ h ((hp.map Prod.snd).mem_iff.2 hy)
      exact ih x hx hxy (fitsSigned_object_iff.1 ha x hx)

end Json

theorem Scalar.fitsSigned_toJson (s : Scalar) : s.toJson.FitsSigned := by
  cases s with
  | int i =>
    have hlt := i.toInt_lt
    apply Json.fitsSigned_integer_iff.2
    omega
  | float x =>
    by_cases hx : x.isFinite = true
    · rw [Scalar.toJson, dif_pos hx]
      exact fun _ _ hi => nomatch hi
    · rw [Scalar.toJson, dif_neg hx]
      exact fun _ _ hi => nomatch hi
  | _ => exact fun _ _ hi => nomatch hi

/-- The value without nilables, and with null where there is nothing or no finite number. -/
def Scalar.bare : Scalar → Value
  | float x => if x.isFinite then .scalar (.float x) else .null
  | s => .scalar s

namespace Value

mutual

/-- Nilables give way to what they hold. Where they hold nothing, and where a float is not finite,
there is null. -/
def bare : Value → Value
  | null => null
  | scalar s => s.bare
  | nilable s => s.bare
  | unset _ => null
  | list items => list (bareList items)
  | object es => object (bareEntries es)

def bareList : List Value → List Value
  | [] => []
  | v :: vs => bare v :: bareList vs

def bareEntries : List (String × Value) → List (String × Value)
  | [] => []
  | (k, v) :: es => (k, bare v) :: bareEntries es

end

/-- The data has the nodes of the value, one for one. A value with nilables or with floats that are
not finite has no copy. -/
inductive Copies : Value → Json → Prop
  | null : Copies .null .null
  | bool (b : Bool) : Copies (.scalar (.bool b)) (.bool b)
  | int (i : Int64) : Copies (.scalar (.int i)) (.integer i.toInt (Scalar.toInt_fits i))
  | float {x : Binary64} (h : x.isFinite = true) : Copies (.scalar (.float x)) (.float x h)
  | string (s : String) : Copies (.scalar (.string s)) (.string s)
  | list {vs : List Value} {js : List Json} (h : List.Forall₂ Copies vs js) :
      Copies (.list vs) (.array js)
  | object {es : Entries Value} {ms : Entries Json}
      (hk : Entries.keys es = Entries.keys ms)
      (h : List.Forall₂ Copies (es.map Prod.snd) (ms.map Prod.snd)) :
      Copies (.object es) (.object ms)

section
variable (vs : List Value) (es : Entries Value) (js : List Json) (ms : Entries Json)

theorem toJson_list : (list vs).toJson = .array (vs.map toJson) :=
  congrArg Json.array (eq_map_of_cons rfl (fun _ _ => rfl) vs)

theorem toJson_object : (object es).toJson = .object (es.map (Prod.map id toJson)) :=
  congrArg Json.object (eq_map_of_cons rfl (fun _ _ => rfl) es)

theorem ofJson_array : ofJson (.array js) = list (js.map ofJson) :=
  congrArg list (eq_map_of_cons rfl (fun _ _ => rfl) js)

theorem ofJson_object : ofJson (.object ms) = object (ms.map (Prod.map id ofJson)) :=
  congrArg object (eq_map_of_cons rfl (fun _ _ => rfl) ms)

theorem bare_list : (list vs).bare = list (vs.map bare) :=
  congrArg list (eq_map_of_cons rfl (fun _ _ => rfl) vs)

theorem bare_object : (object es).bare = object (es.map (Prod.map id bare)) :=
  congrArg object (eq_map_of_cons rfl (fun _ _ => rfl) es)

end

theorem ofJson_integer_toInt (i : Int64) :
    ofJson (.integer i.toInt (Scalar.toInt_fits i)) = scalar (.int i) := by
  have hlt := i.toInt_lt
  rw [ofJson, ofInteger, if_pos (by omega), Int64.ofInt_toInt]

theorem ofJson_toJson_scalar (s : Scalar) : ofJson s.toJson = s.bare := by
  cases s with
  | int i => exact ofJson_integer_toInt i
  | float x => by_cases h : x.isFinite = true <;> simp [Scalar.toJson, Scalar.bare, ofJson, h]
  | _ => rfl

/-- What is read back is the value without its nilables and without floats that are not finite. -/
theorem ofJson_toJson (v : Value) : ofJson v.toJson = v.bare := by
  induction v using nested_induction with
  | leaf v hl ho =>
    cases v with
    | null => rfl
    | scalar s => exact ofJson_toJson_scalar s
    | nilable s => exact ofJson_toJson_scalar s
    | unset t => rfl
    | list xs => exact absurd rfl (hl xs)
    | object es => exact absurd rfl (ho es)
  | list xs ih =>
    rw [toJson_list, ofJson_array, bare_list, List.map_map]
    exact congrArg list (List.map_congr_left ih)
  | object es ih =>
    rw [toJson_object, ofJson_object, bare_object, List.map_map]
    refine congrArg object (List.map_congr_left fun e he => ?_)
    exact Prod.ext rfl (ih e.2 (List.mem_map_of_mem he))

theorem toJson_ofJson_integer {i : Int} {fits} (h : i ≤ 0x7fffffffffffffff) :
    (ofJson (.integer i fits)).toJson = .integer i fits := by
  have hback : (Int64.ofInt i).toInt = i := Int64.toInt_ofInt_of_le fits.1 (by omega)
  rw [ofJson, ofInteger, if_pos (by omega)]
  simp only [toJson, Scalar.toJson, hback]

/-- Data in which all integers fit is written as it was read. -/
theorem toJson_ofJson {j : Json} (h : j.FitsSigned) : (ofJson j).toJson = j := by
  induction j using Json.nested_induction with
  | leaf j ha ho =>
    cases j with
    | integer i fits => exact toJson_ofJson_integer (Json.fitsSigned_integer_iff.1 h)
    | float x hx => exact dif_pos hx
    | array xs => exact absurd rfl (ha xs)
    | object es => exact absurd rfl (ho es)
    | _ => rfl
  | array xs ih =>
    rw [ofJson_array, toJson_list, List.map_map]
    have hfits := Json.fitsSigned_array_iff.1 h
    exact congrArg Json.array <|
      (List.map_congr_left fun x hx => ih x hx (hfits x hx)).trans (List.map_id xs)
  | object es ih =>
    rw [ofJson_object, toJson_object, List.map_map]
    have hfits := Json.fitsSigned_object_iff.1 h
    have hentry : ∀ e ∈ es, (Prod.map id toJson ∘ Prod.map id ofJson) e = e := by
      intro e he
      have hmem := List.mem_map_of_mem (f := Prod.snd) he
      exact Prod.ext rfl (ih e.2 hmem (hfits e.2 hmem))
    exact congrArg Json.object ((List.map_congr_left hentry).trans (List.map_id es))

/-- What is written of a value fits. -/
theorem fitsSigned_toJson (v : Value) : v.toJson.FitsSigned := by
  induction v using nested_induction with
  | leaf v hl ho =>
    cases v with
    | scalar s => exact Scalar.fitsSigned_toJson s
    | nilable s => exact Scalar.fitsSigned_toJson s
    | list xs => exact absurd rfl (hl xs)
    | object es => exact absurd rfl (ho es)
    | _ => exact fun _ _ hi => nomatch hi
  | list xs ih =>
    rw [toJson_list]
    apply Json.fitsSigned_array_iff.2
    exact List.forall_mem_map.2 ih
  | object es ih =>
    rw [toJson_object]
    apply Json.fitsSigned_object_iff.2
    intro x hx
    rw [List.map_map] at hx
    obtain ⟨e, he, rfl⟩ := List.mem_map.1 hx
    exact ih e.2 (List.mem_map_of_mem he)

theorem copies_null_iff {j : Json} : Copies .null j ↔ j = .null := by
  constructor
  · rintro ⟨⟩
    rfl
  · rintro rfl
    exact .null

theorem copies_bare_scalar_iff {s : Scalar} {j : Json} : Copies s.bare j ↔ j = s.toJson := by
  constructor
  · intro h
    cases s with
    | float x =>
      by_cases hx : x.isFinite = true
      · rw [Scalar.bare, if_pos hx] at h
        cases h with
        | float => exact (dif_pos hx).symm
      · rw [Scalar.bare, if_neg hx] at h
        rw [Scalar.toJson, dif_neg hx]
        exact copies_null_iff.1 h
    | _ => cases h; rfl
  · rintro rfl
    cases s with
    | bool b => exact .bool b
    | int i => exact .int i
    | float x =>
      by_cases hx : x.isFinite = true
      · rw [Scalar.bare, if_pos hx, Scalar.toJson, dif_pos hx]
        exact .float hx
      · rw [Scalar.bare, if_neg hx, Scalar.toJson, dif_neg hx]
        exact .null
    | string s => exact .string s

/-- What is written of a value is the one copy of the value without nilables. -/
theorem copies_bare_iff {v : Value} {j : Json} : Copies v.bare j ↔ j = v.toJson := by
  induction v using nested_induction generalizing j with
  | leaf v hl ho =>
    cases v with
    | null => exact copies_null_iff
    | scalar s => exact copies_bare_scalar_iff
    | nilable s => exact copies_bare_scalar_iff
    | unset t => exact copies_null_iff
    | list xs => exact absurd rfl (hl xs)
    | object es => exact absurd rfl (ho es)
  | list xs ih =>
    rw [toJson_list, bare_list]
    have hmap : ∀ js, List.Forall₂ Copies (xs.map bare) js ↔ js = xs.map toJson :=
      fun js => forall₂_map_iff_eq fun x hx j => ih x hx
    constructor
    · intro h
      cases h with
      | list h => exact congrArg Json.array ((hmap _).1 h)
    · rintro rfl
      exact .list ((hmap _).2 rfl)
  | object es ih =>
    rw [toJson_object, bare_object]
    have hvalues : (es.map (Prod.map id toJson)).map Prod.snd = (es.map Prod.snd).map toJson := by
      simp
    have hbare : (es.map (Prod.map id bare)).map Prod.snd = (es.map Prod.snd).map bare := by simp
    have hmap : ∀ js, List.Forall₂ Copies ((es.map Prod.snd).map bare) js ↔
        js = (es.map Prod.snd).map toJson :=
      fun js => forall₂_map_iff_eq fun x hx j => ih x hx
    constructor
    · intro h
      cases h with
      | object hk h =>
        rw [hbare, hmap] at h
        refine congrArg Json.object (Entries.eq_of_keys_of_values ?_ ?_)
        · rw [← hk]
          simp [Entries.keys]
        · rw [h, hvalues]
    · rintro rfl
      refine .object (by simp [Entries.keys]) ?_
      rw [hbare, hmap, hvalues]

/-- JSON data that is read and written again is the same exactly if no integer in it is beyond the
largest one of 64 bits with a sign. A value that is written, read and written again comes out as it
did at first: as the copy of the value with nilables bare, and with null for unset ones and for floats
that are not finite. -/
theorem toJson_retraction :
    (∀ j : Json, (ofJson j).toJson.Alike j ↔ j.FitsSigned) ∧
    ∀ v : Value, (ofJson v.toJson).toJson = v.toJson ∧ ofJson v.toJson = v.bare ∧
      ∀ j, Copies v.bare j ↔ j = v.toJson := by
  constructor
  · intro j
    constructor
    · intro h
      exact h.fitsSigned (fitsSigned_toJson (ofJson j))
    · intro h
      rw [toJson_ofJson h]
      exact .refl j
  · intro v
    exact ⟨toJson_ofJson (fitsSigned_toJson v), ofJson_toJson v, fun j => copies_bare_iff⟩

example : (ofJson (.integer 0x8000000000000000 (by decide))).toJson =
    .float (.ofNat 0x8000000000000000) (by decide) := by rfl

end Value
end FieldRules

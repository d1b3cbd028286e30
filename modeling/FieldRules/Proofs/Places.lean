import FieldRules.Proofs.Overwriting

/-! The nodes of a subject. A node is known by its place, the positions of the containers on the way
to it, since equal values may stand at several places. What a path finds stands at one place; it is
replaced there and nowhere else. -/
namespace FieldRules

/-- Where a child stands in its container. -/
inductive Position
  | key (name : String)
  | index (i : Nat)
  deriving DecidableEq, Repr

namespace Value

def item? : Value → Position → Option Value
  | object es, .key name => Entries.get? name es
  | list items, .index i => items[i]?
  | _, _ => none

def setItem (v : Value) (i : Position) (new : Value) : Value :=
  match v, i with
  | object es, .key name => object (Entries.put name new es)
  | list items, .index i => list (items.set i new)
  | v, _ => v

/-- The position that a segment names in a container, whether or not a child stands there. -/
def position? (v : Value) (segment : String) : Option Position :=
  match v with
  | object _ => some (.key segment)
  | list _ => (Text.natural? segment.toList).map .index
  | _ => none

/-- The node at a place. -/
def at? (v : Value) : List Position → Option Value
  | [] => some v
  | i :: place => (v.item? i).bind fun w => w.at? place

/-- The subject with another value at a place. -/
def putAt (v : Value) : List Position → Value → Value
  | [], new => new
  | i :: place, new =>
    match v.item? i with
    | some w => v.setItem i (w.putAt place new)
    | none => v

/-- The place that a way leads to; none if no node is found there that is not null. -/
def place? (v : Value) : List String → Option (List Position)
  | [] => if v.isNull then none else some []
  | segment :: rest => do
    let i ← v.position? segment
    let w ← v.item? i
    let place ← w.place? rest
    return i :: place

section
variable {v w x : Value} {s t : String} {i j : Position} {p q : List String}
  {place : List Position}

theorem at?_cons_eq_some_iff :
    v.at? (i :: place) = some x ↔ ∃ w, v.item? i = some w ∧ w.at? place = some x := by
  rw [at?, Option.bind_eq_some_iff]

theorem place?_cons_eq_some_iff :
    v.place? (s :: p) = some place ↔ ∃ i w rest, v.position? s = some i ∧ v.item? i = some w ∧
      w.place? p = some rest ∧ place = i :: rest := by
  simp only [place?, Option.bind_eq_bind, Option.bind_eq_some_iff, Option.pure_def,
    Option.some.injEq, eq_comm (b := place)]
  constructor
  · rintro ⟨i, hi, w, hw, rest, hr, h⟩
    exact ⟨i, w, rest, hi, hw, hr, h⟩
  · rintro ⟨i, w, rest, hi, hw, hr, h⟩
    exact ⟨i, hi, w, hw, rest, hr, h⟩

theorem child?_of_position? (h : v.position? s = some i) : v.child? s = .ok (v.item? i) := by
  cases v with
  | object es =>
    obtain rfl : Position.key s = i := by simpa [position?] using h
    rfl
  | list items =>
    obtain ⟨n, hn, rfl⟩ := Option.map_eq_some_iff.1 h
    simp only [child?, hn, item?]
  | _ => simp [position?] at h

/-- A segment finds what stands at the position that it names. -/
theorem child?_eq_some_iff :
    v.child? s = .ok (some w) ↔ ∃ i, v.position? s = some i ∧ v.item? i = some w := by
  constructor
  · intro h
    cases v with
    | object es => exact ⟨.key s, rfl, Except.ok.inj h⟩
    | list items =>
      cases hn : Text.natural? s.toList with
      | none => simp [child?, hn] at h
      | some n =>
        simp only [child?, hn, Except.ok.injEq] at h
        exact ⟨.index n, by simp [position?, hn], h⟩
    | _ => simp [child?] at h
  · rintro ⟨i, hi, hw⟩
    rw [child?_of_position? hi, hw]

theorem setChild_of_position? (h : v.position? s = some i) (x : Value) :
    v.setChild s x = v.setItem i x := by
  cases v with
  | object es =>
    obtain rfl : Position.key s = i := by simpa [position?] using h
    rfl
  | list items =>
    obtain ⟨n, hn, rfl⟩ := Option.map_eq_some_iff.1 h
    simp only [setChild, hn, setItem]
  | _ => simp [position?] at h

theorem item?_setItem_self (h : v.item? i = some w) (x : Value) :
    (v.setItem i x).item? i = some x := by
  cases v with
  | object es => cases i <;> simp_all [item?, setItem]
  | list items =>
    cases i with
    | key name => simp [item?] at h
    | index n =>
      have hn : n < items.length := (List.getElem?_eq_some_iff.1 h).1
      simp [item?, setItem, hn]
  | _ => simp [item?] at h

theorem item?_setItem_of_ne (h : i ≠ j) (v x : Value) : (v.setItem i x).item? j = v.item? j := by
  cases v <;> cases i <;> cases j <;> simp_all [item?, setItem, Entries.get?_put_of_ne]

theorem position?_setItem (v : Value) (i : Position) (x : Value) (s : String) :
    (v.setItem i x).position? s = v.position? s := by
  cases v <;> cases i <;> rfl

theorem at?_putAt_self (h : v.at? place = some w) (x : Value) :
    (v.putAt place x).at? place = some x := by
  induction place generalizing v with
  | nil => rfl
  | cons i place ih =>
    obtain ⟨u, hu, h⟩ := at?_cons_eq_some_iff.1 h
    rw [putAt, hu]
    exact at?_cons_eq_some_iff.2 ⟨_, item?_setItem_self hu _, ih h⟩

/-- What is found on a way stands at the place that the way leads to. -/
theorem walk_eq_some_iff :
    v.walk p = .ok (some w) ↔ ∃ place, v.place? p = some place ∧ v.at? place = some w := by
  induction p generalizing v with
  | nil => cases hv : v.isNull <;> simp [place?, at?, hv]
  | cons s p ih =>
    constructor
    · intro h
      obtain ⟨u, hu, h⟩ := of_walk_cons h
      obtain ⟨i, hi, hiu⟩ := child?_eq_some_iff.1 hu
      obtain ⟨place, hp, hw⟩ := ih.1 h
      exact ⟨i :: place, place?_cons_eq_some_iff.2 ⟨i, u, place, hi, hiu, hp, rfl⟩,
        at?_cons_eq_some_iff.2 ⟨u, hiu, hw⟩⟩
    · rintro ⟨_, hp, hw⟩
      obtain ⟨i, u, rest, hi, hiu, hrest, rfl⟩ := place?_cons_eq_some_iff.1 hp
      obtain ⟨u', hiu', hw⟩ := at?_cons_eq_some_iff.1 hw
      obtain rfl : u = u' := Option.some.inj (hiu.symm.trans hiu')
      rw [walk_cons, child?_of_position? hi, hiu]
      exact ih.2 ⟨rest, hrest, hw⟩

theorem put_eq_putAt (h : v.place? p = some place) (x : Value) : v.put p x = v.putAt place x := by
  induction p generalizing v place with
  | nil =>
    cases hv : v.isNull with
    | true => simp [place?, hv] at h
    | false =>
      obtain rfl : [] = place := by simpa [place?, hv] using h
      exact put_nil_of_not_null hv x
  | cons s p ih =>
    obtain ⟨i, u, rest, hi, hu, hrest, rfl⟩ := place?_cons_eq_some_iff.1 h
    rw [put_cons_of_child (child?_eq_some_iff.2 ⟨i, hi, hu⟩), setChild_of_position? hi,
      ih hrest, putAt, hu]

theorem walk_putAt_self (hp : v.place? p = some place) (x : Value) :
    (v.putAt place x).walk p = .ok (if x.isNull then none else some x) := by
  induction p generalizing v place with
  | nil =>
    cases hv : v.isNull with
    | true => simp [place?, hv] at hp
    | false =>
      obtain rfl : [] = place := by simpa [place?, hv] using hp
      rfl
  | cons s p ih =>
    obtain ⟨i, u, rest, hi, hu, hrest, rfl⟩ := place?_cons_eq_some_iff.1 hp
    rw [putAt, hu, walk_cons, child?_of_position? ((position?_setItem _ _ _ _).trans hi),
      item?_setItem_self hu]
    exact ih hrest

theorem child?_setItem_of_ne (h : v.position? t ≠ some i) (x : Value) :
    (v.setItem i x).child? t = v.child? t := by
  cases ht : v.position? t with
  | some j =>
    have hij : i ≠ j := fun hij => h (ht.trans (congrArg some hij.symm))
    rw [child?_of_position? ht, child?_of_position? ((position?_setItem _ _ _ _).trans ht),
      item?_setItem_of_ne hij]
  | none =>
    cases v with
    | list items =>
      have hn : Text.natural? t.toList = none := by simpa [position?] using ht
      cases i <;> simp [setItem, child?, hn]
    | object es => simp [position?] at ht
    | _ => rfl

end

/-- Two ways lead through the same nodes up to some container, where they name different positions,
or one of them names none. -/
inductive PartWays : Value → List String → List String → Prop
  | here {v : Value} {s t : String} {p q : List String} (h : v.position? s ≠ v.position? t) :
      PartWays v (s :: p) (t :: q)
  | later {v w : Value} {s t : String} {i : Position} {p q : List String}
      (hs : v.position? s = some i) (ht : v.position? t = some i) (hw : v.item? i = some w)
      (h : PartWays w p q) : PartWays v (s :: p) (t :: q)

/-- What a way comes to is not changed at a place that it leads away from. -/
theorem PartWays.walk_putAt {v : Value} {p q : List String} (h : PartWays v p q)
    {place : List Position} (hp : v.place? p = some place) (x : Value) :
    (v.putAt place x).walk q = v.walk q := by
  induction h generalizing place with
  | @here v s t p q h =>
    obtain ⟨i, u, rest, hi, hu, _, rfl⟩ := place?_cons_eq_some_iff.1 hp
    rw [putAt, hu, walk_cons, walk_cons, child?_setItem_of_ne fun ht => h (hi.trans ht.symm)]
  | @later v w s t i p q hs ht hw h ih =>
    obtain ⟨j, u, rest, hj, hu, hrest, rfl⟩ := place?_cons_eq_some_iff.1 hp
    obtain rfl : i = j := Option.some.inj (hs.symm.trans hj)
    obtain rfl : w = u := Option.some.inj (hw.symm.trans hu)
    rw [putAt, hw, walk_cons, walk_cons, child?_of_position? ht, hw,
      child?_of_position? ((position?_setItem _ _ _ _).trans ht), item?_setItem_self hw]
    exact ih hrest

theorem resolve_eq_some_iff {v w : Value} {p : FieldPath} :
    v.resolve p = .ok (some w) ↔
      ∃ place, v.place? p.segments = some place ∧ v.at? place = some w := by
  rw [← walk_eq_some_iff, resolve]
  cases v.walk p.segments with
  | error e => exact iff_of_false nofun nofun
  | ok found =>
    change Except.ok found = Except.ok (some w) ↔ _
    rw [Except.ok.injEq, Except.ok.injEq]

theorem replace_eq (v : Value) (p : FieldPath) (x : Value) :
    v.replace p x = (v.resolve p).map (Option.map fun _ => v.put p.segments x) := by
  rw [replace, resolve, overwrite_eq]
  cases v.walk p.segments with
  | error e => rfl
  | ok o => cases o <;> rfl

/-- Looking up and replacing take the same way: to the same obstacle, to nothing both times, or to
one place. A value stored there is found there again, null as unset, and whatever is found on ways
that lead away from there is found as before. -/
theorem resolve_replace (subject new : Value) (p : FieldPath) :
    (∀ e, subject.resolve p = .error e ↔ subject.replace p new = .error e) ∧
    (subject.resolve p = .ok none ↔ subject.replace p new = .ok none) ∧
    ∀ old, subject.resolve p = .ok (some old) → ∃ place, subject.place? p.segments = some place ∧
      subject.at? place = some old ∧ subject.putAt place old = subject ∧
      subject.replace p new = .ok (some (subject.putAt place new)) ∧
      (subject.putAt place new).at? place = some new ∧
      (subject.putAt place new).resolve p = .ok (if new.isNull then none else some new) ∧
      ∀ q : FieldPath, PartWays subject p.segments q.segments →
        (subject.putAt place new).resolve q = subject.resolve q := by
  refine ⟨fun e => ?_, ?_, fun old h => ?_⟩
  · rw [replace_eq]
    cases subject.resolve p <;> simp [Except.map]
  · rw [replace_eq]
    cases subject.resolve p with
    | error e => simp [Except.map]
    | ok o => cases o <;> simp [Except.map]
  · obtain ⟨place, hp, hold⟩ := resolve_eq_some_iff.1 h
    refine ⟨place, hp, hold, ?_, ?_, at?_putAt_self hold new, ?_, fun q hq => ?_⟩
    · rw [← put_eq_putAt hp, put_walk (walk_eq_some_iff.2 ⟨place, hp, hold⟩)]
    · rw [replace_eq, h, put_eq_putAt hp]
      rfl
    · rw [resolve, walk_putAt_self hp]
      rfl
    · rw [resolve, resolve, hq.walk_putAt hp]

/-- Another name in the second row, told by an index with a leading zero. The first row, another
entry, a name that is missing and a segment that is no index stay as they were. -/
theorem second_row_resolve_replace :
    let subject : Value := .object [("rows", .list [.object [("name", .scalar (.string "a"))],
      .object [("name", .nilable (.string "b"))]]), ("total", .scalar (.int 2))]
    let changed : Value := .object [("rows", .list [.object [("name", .scalar (.string "a"))],
      .object [("name", .scalar (.string "c"))]]), ("total", .scalar (.int 2))]
    let p : FieldPath := ⟨["rows", "01", "name"], by simp⟩
    subject.resolve p = .ok (some (.nilable (.string "b"))) ∧
    subject.replace p (.scalar (.string "c")) = .ok (some changed) ∧
    changed.resolve p = .ok (some (.scalar (.string "c"))) ∧
    changed.resolve ⟨["rows", "0", "name"], by simp⟩ = .ok (some (.scalar (.string "a"))) ∧
    changed.resolve ⟨["rows", "1", "note"], by simp⟩ = .ok none ∧
    changed.resolve ⟨["total"], by simp⟩ = .ok (some (.scalar (.int 2))) ∧
    changed.resolve ⟨["rows", "last", "name"], by simp⟩ =
      .error ⟨"rows.last.name", .badIndex "last"⟩ := by
  intro subject changed p
  have hold : subject.resolve p = .ok (some (.nilable (.string "b"))) := rfl
  obtain ⟨place, hp, _, _, hnew, _, hself, hother⟩ :=
    (resolve_replace subject (.scalar (.string "c")) p).2.2 _ hold
  obtain rfl : [.key "rows", .index 1, .key "name"] = place := Option.some.inj (Eq.trans rfl hp)
  refine ⟨hold, hnew, hself, ?_, ?_, ?_, ?_⟩
  · exact hother ⟨["rows", "0", "name"], by simp⟩ (.later rfl rfl rfl (.here (by decide)))
  · exact hother ⟨["rows", "1", "note"], by simp⟩
      (.later rfl rfl rfl (.later rfl rfl rfl (.here (by decide))))
  · exact hother ⟨["total"], by simp⟩ (.here (by decide))
  · exact hother ⟨["rows", "last", "name"], by simp⟩ (.later rfl rfl rfl (.here (by decide)))

end Value
end FieldRules

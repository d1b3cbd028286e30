/-! The operations that clauses ask for, besides declaring the kind of the field. -/
namespace FieldRules

inductive Operation
  | required
  | stopAll
  | stop
  | exclusive
  | oneOf
  | external
  | length
  | pattern
  | trim
  | storeTrimmed
  | is
  | range
  | elements
  deriving DecidableEq, Repr

namespace Operation

def all : List Operation :=
  [required, stopAll, stop, exclusive, oneOf, external, length, pattern, trim, storeTrimmed, is,
    range, elements]

def code : Operation → String
  | required => "REQ"
  | stopAll => "STOPALL"
  | stop => "BREAK"
  | exclusive => "MEX"
  | oneOf => "IN"
  | external => "EXT"
  | length => "LEN"
  | pattern => "REG"
  | trim => "TRIM"
  | storeTrimmed => "HARDTRIM"
  | is => "IS"
  | range => "RANGE"
  | elements => "ELEM"

def ofCode? (code : String) : Option Operation := all.find? (·.code = code)

@[simp] theorem mem_all (o : Operation) : o ∈ all := by cases o <;> decide

@[simp] theorem ofCode?_code (o : Operation) : ofCode? o.code = some o := by cases o <;> decide

theorem ofCode?_eq_some {c : String} {o : Operation} : ofCode? c = some o ↔ o.code = c := by
  refine ⟨fun h => by simpa using List.find?_some h, ?_⟩
  rintro rfl
  exact ofCode?_code o

theorem code_inj {o o' : Operation} : o.code = o'.code ↔ o = o' := by
  rw [← ofCode?_eq_some, ofCode?_code, Option.some_inj, eq_comm]

end Operation
end FieldRules

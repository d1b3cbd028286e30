import FieldRules.BuildError
import FieldRules.Text.Separated

/-! Field paths: the names and list indexes on the way from the subject to a field. -/
namespace FieldRules

structure FieldPath where
  segments : List String
  ne_nil : segments ≠ []
  deriving DecidableEq, Repr

namespace FieldPath

def joinDots (segments : List String) : String := String.intercalate "." segments

def text (p : FieldPath) : String := joinDots p.segments

/-- A path is written with points between its segments, none of which is empty. -/
def parse (s : String) : Except BuildError FieldPath :=
  if h : Text.split '.' s = [] ∨ "" ∈ Text.split '.' s then .error (.invalidPath s)
  else .ok ⟨Text.split '.' s, fun h' => h (.inl h')⟩

/-- The proper prefixes of the path, shortest first. -/
def parents (p : FieldPath) : List String :=
  (List.range (p.segments.length - 1)).map fun n => joinDots (p.segments.take (n + 1))

/-- One segment more, whatever it contains. -/
def child (p : FieldPath) (segment : String) : FieldPath := ⟨p.segments ++ [segment], by simp⟩

/-- The path of a list element. -/
def element (p : FieldPath) (index : Nat) : FieldPath := p.child (toString index)

@[simp] theorem segments_child (p : FieldPath) (s : String) :
    (p.child s).segments = p.segments ++ [s] := rfl

theorem segments_of_parse {s : String} {p : FieldPath} (h : parse s = .ok p) :
    p.segments = Text.split '.' s := by
  simp only [parse] at h; split at h <;> simp_all; subst h; rfl

example : (parse "a.b.c").toOption.map parents = some ["a", "a.b"] := by decide
example : parse "a..b" = .error (.invalidPath "a..b") := by rfl

end FieldPath
end FieldRules

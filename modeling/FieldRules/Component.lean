import FieldRules.Value

/-! Components are checks from outside, found by name when a rule is built. Each may be able to
check scalars of some types. -/
namespace FieldRules

structure Component where
  bool? : Option (Bool → Bool) := none
  int? : Option (Int64 → Bool) := none
  float? : Option (Binary64 → Bool) := none
  string? : Option (String → Bool) := none

abbrev Registry := Entries Component

namespace Registry

def register (r : Registry) (name : String) (c : Component) : Registry := Entries.put name c r

def find? (r : Registry) (name : String) : Option Component := Entries.get? name r

/-- The registered names, sorted by their code points. -/
def names (r : Registry) : List String := (Entries.keys r).mergeSort fun a b => a ≤ b

end Registry
end FieldRules

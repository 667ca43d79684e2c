import InventoryFeed.Routing
import InventoryFeed.Text.Identifier

/-!
# References that cannot be routed

What is wrong with a field reference, told by its path and its qualifier alone.
-/

namespace InventoryFeed.FieldRef

/-- The path of a reference is one or more steps with points between them, each of one or more letters,
digits and underscores. -/
def HasPath (field : FieldRef) : Prop :=
  ∃ steps : List (List Char), steps ≠ [] ∧ (∀ step ∈ steps, step ≠ [] ∧ ∀ c ∈ step, Ascii.WordChar c) ∧
    field.path.toList = ['.'].intercalate steps

/-- A reference is refused for its path first, whatever its qualifier, and then for its qualifier. -/
inductive Refused (catalog : Catalog) (field : FieldRef) : RoutingError → Prop
  /-- Its path is not made of steps. -/
  | path (hpath : ¬ field.HasPath) : Refused catalog field (.invalidField field.display)
  /-- Its path is, and the catalog does not know its qualifier. -/
  | qualifier (hpath : field.HasPath) {qualifier : String} (hqualifier : field.qualifier = some qualifier)
      (hunknown : qualifier ∉ catalog.qualifiers.map (·.1)) :
      Refused catalog field (.unknownQualifier qualifier field.display)

end InventoryFeed.FieldRef

import InventoryFeed.Catalog.Configured
import Mathlib.Data.List.Forall2

/-!
# The order of aliases

The aliases of a view come in no order, and so do those of the views of a section. Levels are named in any
letter case, so that two keys of a view may name the same level.
-/

namespace InventoryFeed

namespace ViewSettings

/-- The level that a key names, if it names one. -/
def levelOf? (key : String) : Option Level := (Level.read key).toOption

/-- The column of the last key that names a level, if any does. -/
def lastColumn (level : Level) (aliases : List (String × String)) : Option String :=
  (aliases.reverse.find? fun entry => levelOf? entry.1 = some level).map (·.2)

/-- Whether two keys name the same level and different columns. -/
def Clashes (entry : ViewSettings) : Prop :=
  ∃ a ∈ entry.aliases, ∃ b ∈ entry.aliases,
    ∃ level ∈ levelOf? a.1, levelOf? b.1 = some level ∧ a.2 ≠ b.2

instance (entry : ViewSettings) : Decidable entry.Clashes := inferInstanceAs (Decidable (∃ _ ∈ _, _))

/-- The same view with its aliases in another order. -/
structure Reordered (entry other : ViewSettings) : Prop where
  level : other.level = entry.level
  name : other.name = entry.name
  aliases : other.aliases.Perm entry.aliases

end ViewSettings

/-- The same section with the aliases of its views in another order. -/
structure CatalogSettings.Reordered (s other : CatalogSettings) : Prop where
  idColumn : other.idColumn = s.idColumn
  qualifiers : other.qualifiers = s.qualifiers
  views : List.Forall₂ ViewSettings.Reordered s.views other.views

end InventoryFeed

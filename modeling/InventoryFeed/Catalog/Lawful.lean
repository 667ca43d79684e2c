import InventoryFeed.Catalog.Basic
import InventoryFeed.Text.Identifier

/-!
# Lawful catalogs

What is to hold of a view and of a catalog for queries to be made with them: plain names, a column for each
level that a view carries, each view in the place of its level, and no qualifier for the record itself.
-/

namespace InventoryFeed

/-- A view with plain names and a column for each level up to its own. -/
structure View.Lawful (v : View) : Prop where
  /-- The name of the view is an identifier. -/
  name : Ascii.Identifier v.name
  /-- So is each column. -/
  column : ∀ level column, v.columns.get level = some column → Ascii.Identifier column
  /-- There is a column for each level up to the view's own. -/
  carries : ∀ level : Level, level.depth ≤ v.level.depth → ∃ column, v.columns.get level = some column

/-- A catalog with a lawful view for each level. -/
structure Catalog.Lawful (c : Catalog) : Prop where
  /-- The id column is an identifier. -/
  idColumn : Ascii.Identifier c.idColumn
  /-- The views are lawful. -/
  view : ∀ level, (c.views.get level).Lawful
  /-- Each view is of the level that it stands for. -/
  place : ∀ level, (c.views.get level).level = level
  /-- Up to the level of a view, its column with the view's name before it is two identifiers with a point
  between them. -/
  qualified : ∀ level carried : Level, carried.depth ≤ level.depth → ∃ view column,
    Ascii.Identifier view ∧ Ascii.Identifier column ∧
      (c.views.get level).qualified carried = some (view ++ "." ++ column)
  /-- No qualifier leads to the record itself. -/
  qualifier : ∀ entry ∈ c.qualifiers, entry.2 ≠ .base

end InventoryFeed

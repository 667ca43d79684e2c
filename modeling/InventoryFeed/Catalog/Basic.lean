import InventoryFeed.Names
import InventoryFeed.Keyed

/-!
# The view catalog

Which view serves each scope level, under which column it carries each entity, and which qualifier
of a query leads to which level. `Catalog.build` accepts a list of views exactly when there is one
for each level, each with a column for every level it carries, all names are plain identifiers, and
no qualifier leads to the record itself.
-/

namespace InventoryFeed

/-- A joined view and the columns of the entities in it. -/
structure View where
  /-- The level that the view serves. -/
  level : Level
  /-- The view's name in the store. -/
  name : String
  /-- The column of the document of each level's entity. -/
  columns : PerLevel (Option String)
  deriving DecidableEq, Repr

/-- The column of a level's entity with the view's name before it. -/
def View.qualified (v : View) (level : Level) : Option String :=
  (v.columns.get level).map fun column => v.name ++ "." ++ column

/-- The views, the id column and the qualifiers that a query is routed by. -/
structure Catalog where
  /-- The view of each level. -/
  views : PerLevel View
  /-- The column of a record's id, the same in every view. -/
  idColumn : String
  /-- The level that each qualifier leads to, in key order. -/
  qualifiers : List (String × Level)
  deriving DecidableEq, Repr

/-- Why a catalog is refused. -/
inductive CatalogError where
  /-- No view serves the level. -/
  | missingView (level : Level)
  /-- Two views serve the level. -/
  | duplicateView (level : Level)
  /-- A view lacks the column of a level that it carries. -/
  | missingAlias (view : String) (level : Level)
  /-- A qualifier leads to the record itself. -/
  | baseQualifier (qualifier : String)
  /-- A name is not a plain identifier. -/
  | invalidIdentifier (name : String)
  deriving DecidableEq, Repr

/-- The wording of a refusal. -/
def CatalogError.message : CatalogError → String
  | .missingView level => "no view configured for scope level " ++ level.name
  | .duplicateView level => "more than one view configured for scope level " ++ level.name
  | .missingAlias view level =>
    "view '" ++ view ++ "' has no column alias for scope level " ++ level.name
  | .baseQualifier qualifier =>
    "qualifier '" ++ qualifier ++ "' cannot map to scope level BASE"
  | .invalidIdentifier name => "'" ++ name ++ "' is not a valid SQL identifier"

/-- The name of a refusal's kind. -/
def CatalogError.kind : CatalogError → String
  | .missingView _ => "MissingView"
  | .duplicateView _ => "DuplicateView"
  | .missingAlias _ _ => "MissingAlias"
  | .baseQualifier _ => "BaseQualifier"
  | .invalidIdentifier _ => "InvalidIdentifier"

namespace Catalog

/-- Refuse a name that is not a plain identifier. -/
def checkIdentifier (name : String) : Except CatalogError Unit :=
  if Ascii.isIdentifier name then .ok () else .error (.invalidIdentifier name)

/-- Refuse a view with a bad name or without a column that it needs. -/
def checkView (v : View) : Except CatalogError Unit := do
  checkIdentifier v.name
  (v.columns.toList.filterMap id).forM checkIdentifier
  match v.level.upTo.find? fun level => (v.columns.get level).isNone with
  | some level => .error (.missingAlias v.name level)
  | none => .ok ()

/-- Put a checked view into the place of its level. -/
def placeView (slots : PerLevel (Option View)) (v : View) :
    Except CatalogError (PerLevel (Option View)) := do
  checkView v
  if (slots.get v.level).isSome then .error (.duplicateView v.level)
  else .ok (slots.set v.level (some v))

/-- The view in a level's place. -/
def takeView (slots : PerLevel (Option View)) (level : Level) : Except CatalogError View :=
  match slots.get level with
  | some v => .ok v
  | none => .error (.missingView level)

/-- Refuse a qualifier that leads to the record itself, the first of them in key order. -/
def checkQualifiers (qualifiers : List (String × Level)) : Except CatalogError Unit :=
  match qualifiers.find? fun entry => entry.2 = .base with
  | some (qualifier, _) => .error (.baseQualifier qualifier)
  | none => .ok ()

/-- A catalog from a list of views, an id column and qualifiers in key order. -/
def build (views : List View) (idColumn : String) (qualifiers : List (String × Level)) :
    Except CatalogError Catalog := do
  checkIdentifier idColumn
  let slots ← views.foldlM placeView (PerLevel.replicate none)
  checkQualifiers qualifiers
  let base ← takeView slots .base
  let first ← takeView slots .first
  let second ← takeView slots .second
  pure ⟨⟨base, first, second⟩, idColumn, qualifiers⟩

/-- The catalog of the bundled schema: instances, their holdings and the holdings' items. -/
def inventory : Catalog where
  views := {
    base := ⟨.base, "instance", ⟨some "jsonb", none, none⟩⟩
    first := ⟨.first, "instance_holding_view", ⟨some "jsonb", some "ho_jsonb", none⟩⟩
    second :=
      ⟨.second, "instance_holding_item_view", ⟨some "jsonb", some "ho_jsonb", some "it_jsonb"⟩⟩ }
  idColumn := "id"
  qualifiers := [("holdingsRecords", .first), ("holdingsRecords.items", .second), ("item", .second)]

/-- The level that a qualifier leads to; a reference without one means the record itself. -/
def levelOf (c : Catalog) : Option String → Option Level
  | none => some .base
  | some qualifier => Keyed.get? qualifier c.qualifiers

end Catalog

end InventoryFeed

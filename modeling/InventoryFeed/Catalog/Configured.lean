import InventoryFeed.Settings

/-!
# The catalog of a settings text

Views, id column and qualifiers as the settings state them, the bundled ones where they state none.
Levels are named in any letter case. Errors say which view, alias or qualifier they are about.
-/

namespace InventoryFeed

/-- Why the settings make no catalog. -/
inductive ConfigurationError where
  /-- A view's level is unknown. -/
  | viewLevel (view : String) (cause : NameError)
  /-- The level of a view's column is unknown. -/
  | aliasLevel (view : String) (cause : NameError)
  /-- The level that a qualifier leads to is unknown. -/
  | qualifierLevel (qualifier : String) (cause : NameError)
  /-- The parts make no catalog. -/
  | invalid (cause : CatalogError)
  deriving DecidableEq, Repr

/-- The wording of a refusal, the part that it is about first. -/
def ConfigurationError.message : ConfigurationError → String
  | .viewLevel view cause => "view '" ++ view ++ "': " ++ cause.message
  | .aliasLevel view cause => "alias of view '" ++ view ++ "': " ++ cause.message
  | .qualifierLevel qualifier cause => "qualifier '" ++ qualifier ++ "': " ++ cause.message
  | .invalid cause => "invalid [views] configuration: " ++ cause.message

namespace ViewSettings

/-- The columns of a view from its aliases, visited in the order given; a later alias of the same
level replaces an earlier one. -/
def columns (view : String) (aliases : List (String × String)) :
    Except ConfigurationError (PerLevel (Option String)) :=
  aliases.foldlM (fun found entry =>
    match Level.read entry.1 with
    | .ok level => .ok (found.set level (some entry.2))
    | .error cause => .error (.aliasLevel view cause)) (PerLevel.replicate none)

/-- The view that an entry describes. -/
def toView (entry : ViewSettings) : Except ConfigurationError View :=
  match Level.read entry.level with
  | .error cause => .error (.viewLevel entry.name cause)
  | .ok level => do
    let columns ← columns entry.name entry.aliases
    pure ⟨level, entry.name, columns⟩

end ViewSettings

namespace CatalogSettings

/-- The level that each qualifier leads to, in key order. -/
def levels (qualifiers : List (String × String)) :
    Except ConfigurationError (List (String × Level)) := do
  let entries ← qualifiers.mapM fun (qualifier, name) =>
    match Level.read name with
    | .ok level => .ok (qualifier, level)
    | .error cause => .error (.qualifierLevel qualifier cause)
  pure (Keyed.ofList entries)

/-- The catalog that a section makes. -/
def toCatalog (s : CatalogSettings) : Except ConfigurationError Catalog := do
  let views ←
    if s.views.isEmpty then pure Catalog.inventory.views.toList
    else s.views.mapM ViewSettings.toView
  let qualifiers ← match s.qualifiers with
    | some qualifiers => levels qualifiers
    | none => pure Catalog.inventory.qualifiers
  match Catalog.build views (s.idColumn.getD Catalog.inventory.idColumn) qualifiers with
  | .ok catalog => pure catalog
  | .error cause => .error (.invalid cause)

end CatalogSettings

/-- The catalog of the settings; the bundled one without settings or without a section of it. -/
def Settings.toCatalog (settings : Option Settings) : Except ConfigurationError Catalog :=
  match settings.bind (·.catalog) with
  | some catalog => catalog.toCatalog
  | none => .ok Catalog.inventory

end InventoryFeed

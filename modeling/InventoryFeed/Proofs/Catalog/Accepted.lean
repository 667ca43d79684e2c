import InventoryFeed.Catalog.Configured
import InventoryFeed.Proofs.Traversal

/-!
# Catalogs that were accepted

A catalog comes from a list of views, from a settings text, or with the program. All of them were
checked alike: each view stands in the place of its level, every name is a plain identifier, and a view
has a column for each level up to its own.
-/

namespace InventoryFeed

/-- A view with plain names and a column for each level up to its own. -/
structure View.Checked (v : View) : Prop where
  name : Ascii.isIdentifier v.name = true
  column : ∀ level name, v.columns.get level = some name → Ascii.isIdentifier name = true
  carries : ∀ level : Level, level.depth ≤ v.level.depth → (v.columns.get level).isSome = true

namespace Catalog

/-- A catalog whose views are checked, each in the place of its level. -/
structure Checked (c : Catalog) : Prop where
  view : ∀ level, (c.views.get level).Checked
  place : ∀ level, (c.views.get level).level = level
  idColumn : Ascii.isIdentifier c.idColumn = true

/-- The catalogs that a program can come to hold. -/
inductive Accepted : Catalog → Prop
  /-- From a list of views. -/
  | built {views : List View} {idColumn : String} {qualifiers : List (String × Level)} {c : Catalog}
      (h : build views idColumn qualifiers = .ok c) : Accepted c
  /-- From the settings. -/
  | configured {settings : Option Settings} {c : Catalog} (h : Settings.toCatalog settings = .ok c) :
      Accepted c
  /-- With the program. -/
  | bundled : Accepted inventory

theorem isIdentifier_of_checkIdentifier {name : String} {u : Unit}
    (h : checkIdentifier name = .ok u) : Ascii.isIdentifier name = true := by
  unfold checkIdentifier at h
  split at h
  · assumption
  · cases h

theorem isIdentifier_of_forM {names : List String} {u : Unit}
    (h : names.forM checkIdentifier = .ok u) : ∀ name ∈ names, Ascii.isIdentifier name = true := by
  induction names with
  | nil => nofun
  | cons first rest ih =>
    change (checkIdentifier first >>= fun _ => rest.forM checkIdentifier) = .ok u at h
    rw [bind_eq_ok] at h
    obtain ⟨u, hfirst, hrest⟩ := h
    rintro name (_ | ⟨_, hname⟩)
    · exact isIdentifier_of_checkIdentifier hfirst
    · exact ih hrest name hname

theorem checked_of_checkView {v : View} {u : Unit} (h : checkView v = .ok u) : v.Checked := by
  rw [checkView, bind_eq_ok] at h
  obtain ⟨u, hname, h⟩ := h
  rw [bind_eq_ok] at h
  obtain ⟨u, hcolumns, h⟩ := h
  split at h
  · cases h
  · rename_i hnone
    refine ⟨isIdentifier_of_checkIdentifier hname, ?_, ?_⟩
    · -- A column is among the names that were checked.
      intro level name hcolumn
      refine isIdentifier_of_forM hcolumns name ?_
      cases level <;> simp_all [PerLevel.toList, PerLevel.get]
    · -- The search for a level that is not carried found none.
      intro level hlevel
      have hup : level ∈ v.level.upTo := by
        simp only [Level.upTo, List.mem_filter, decide_eq_true_eq]
        exact ⟨by cases level <;> decide, hlevel⟩
      have hsome := List.find?_eq_none.mp hnone level hup
      simpa [Option.isSome_iff_ne_none] using hsome

/-- The places filled so far hold checked views of their levels: what placing the views keeps. -/
def PlacesChecked (slots : PerLevel (Option View)) : Prop :=
  ∀ level v, slots.get level = some v → v.Checked ∧ v.level = level

theorem placesChecked_placeView {slots slots' : PerLevel (Option View)} {v : View}
    (hslots : PlacesChecked slots) (h : placeView slots v = .ok slots') : PlacesChecked slots' := by
  rw [placeView, bind_eq_ok] at h
  obtain ⟨u, hcheck, h⟩ := h
  split at h
  · cases h
  · cases h
    intro level w hw
    by_cases hlevel : level = v.level
    · subst hlevel
      rw [PerLevel.get_set_self] at hw
      cases hw
      exact ⟨checked_of_checkView hcheck, rfl⟩
    · rw [PerLevel.get_set_of_ne _ _ hlevel] at hw
      exact hslots level w hw

theorem get_of_takeView {slots : PerLevel (Option View)} {level : Level} {v : View}
    (h : takeView slots level = .ok v) : slots.get level = some v := by
  unfold takeView at h
  split at h
  · cases h
    assumption
  · cases h

theorem checked_of_build {views : List View} {idColumn : String}
    {qualifiers : List (String × Level)} {c : Catalog}
    (h : build views idColumn qualifiers = .ok c) : c.Checked := by
  rw [build, bind_eq_ok] at h
  obtain ⟨u, hid, h⟩ := h
  rw [bind_eq_ok] at h
  obtain ⟨slots, hslots, h⟩ := h
  rw [bind_eq_ok] at h
  obtain ⟨u, -, h⟩ := h
  rw [bind_eq_ok] at h
  obtain ⟨base, hbase, h⟩ := h
  rw [bind_eq_ok] at h
  obtain ⟨first, hfirst, h⟩ := h
  rw [bind_eq_ok] at h
  obtain ⟨second, hsecond, h⟩ := h
  cases h
  have hchecked : PlacesChecked slots :=
    foldlM_keeps PlacesChecked (fun _ _ _ => placesChecked_placeView) (by simp [PlacesChecked]) hslots
  have hplace (level : Level) : ((PerLevel.mk base first second).get level).Checked ∧
      ((PerLevel.mk base first second).get level).level = level := by
    cases level with
    | base => exact hchecked .base base (get_of_takeView hbase)
    | first => exact hchecked .first first (get_of_takeView hfirst)
    | second => exact hchecked .second second (get_of_takeView hsecond)
  exact ⟨fun level => (hplace level).1, fun level => (hplace level).2,
    isIdentifier_of_checkIdentifier hid⟩

/-- The bundled catalog is built from its own parts. -/
theorem build_inventory :
    build inventory.views.toList inventory.idColumn inventory.qualifiers = .ok inventory := by
  rfl

theorem build_of_passed {built : Except CatalogError Catalog} {c : Catalog}
    (h : (match built with
      | .ok catalog => pure catalog
      | .error cause => .error (.invalid cause) : Except ConfigurationError Catalog) = .ok c) :
    built = .ok c := by
  split at h
  · cases h
    rfl
  · cases h

theorem built_of_toCatalog {s : CatalogSettings} {c : Catalog} (h : s.toCatalog = .ok c) :
    ∃ views idColumn qualifiers, build views idColumn qualifiers = .ok c := by
  unfold CatalogSettings.toCatalog at h
  split at h
  all_goals
    dsimp only at h
    split at h
    all_goals
      obtain ⟨views, -, h⟩ := bind_eq_ok.mp h
      obtain ⟨qualifiers, -, h⟩ := bind_eq_ok.mp h
      exact ⟨_, _, _, build_of_passed h⟩

/-- Every catalog was built from parts. -/
theorem Accepted.built_of {c : Catalog} (hc : c.Accepted) :
    ∃ views idColumn qualifiers, build views idColumn qualifiers = .ok c := by
  cases hc with
  | built h => exact ⟨_, _, _, h⟩
  | bundled => exact ⟨_, _, _, build_inventory⟩
  | configured h =>
    unfold Settings.toCatalog at h
    split at h
    · exact built_of_toCatalog h
    · cases h
      exact ⟨_, _, _, build_inventory⟩

theorem Accepted.checked {c : Catalog} (hc : c.Accepted) : c.Checked := by
  obtain ⟨views, idColumn, qualifiers, h⟩ := hc.built_of
  exact checked_of_build h

end Catalog

end InventoryFeed

import InventoryFeed.Catalog.Lawful
import InventoryFeed.Proofs.Catalog.Accepted

/-!
# When a catalog is built

Placing views one after the other succeeds exactly if each of them is checked and no two are of one level,
and then the place of a level holds the view of that level. So the order of the views is of no account, and
a catalog is built exactly if there is one view for each level.
-/

namespace InventoryFeed

theorem View.checked_iff {v : View} : v.Checked ↔ v.Lawful := by
  constructor
  · rintro ⟨hname, hcolumn, hcarries⟩
    exact ⟨Ascii.isIdentifier_iff.mp hname, fun level name h => Ascii.isIdentifier_iff.mp (hcolumn level name h),
      fun level h => Option.isSome_iff_exists.mp (hcarries level h)⟩
  · rintro ⟨hname, hcolumn, hcarries⟩
    exact ⟨Ascii.isIdentifier_iff.mpr hname,
      fun level name h => Ascii.isIdentifier_iff.mpr (hcolumn level name h),
      fun level h => Option.isSome_iff_exists.mpr (hcarries level h)⟩

namespace PerLevel

variable {α : Type}

theorem get_ext {p p' : PerLevel α} (h : ∀ level, p.get level = p'.get level) : p = p' := by
  cases p
  cases p'
  exact congr (congr (congrArg mk (h .base)) (h .first)) (h .second)

/-- One value for each level, chosen level by level. -/
theorem exists_get {holds : Level → α → Prop} (h : ∀ level, ∃ a, holds level a) :
    ∃ p : PerLevel α, ∀ level, holds level (p.get level) := by
  obtain ⟨base, hbase⟩ := h .base
  obtain ⟨first, hfirst⟩ := h .first
  obtain ⟨second, hsecond⟩ := h .second
  refine ⟨⟨base, first, second⟩, fun level => ?_⟩
  cases level with
  | base => exact hbase
  | first => exact hfirst
  | second => exact hsecond

theorem mem_toList {p : PerLevel α} {a : α} : a ∈ p.toList ↔ ∃ level, p.get level = a := by
  constructor
  · rintro (_ | ⟨_, _ | ⟨_, _ | ⟨_, ⟨⟩⟩⟩⟩)
    · exact ⟨.base, rfl⟩
    · exact ⟨.first, rfl⟩
    · exact ⟨.second, rfl⟩
  · rintro ⟨level, rfl⟩
    cases level <;> simp [toList, get]

end PerLevel

namespace Catalog

theorem checkIdentifier_of_identifier {name : String} (h : Ascii.isIdentifier name = true) :
    checkIdentifier name = .ok () := if_pos h

theorem forM_checkIdentifier {names : List String} (h : ∀ name ∈ names, Ascii.isIdentifier name = true) :
    names.forM checkIdentifier = .ok () := by
  induction names with
  | nil => rfl
  | cons name rest ih =>
    obtain ⟨hname, hrest⟩ := List.forall_mem_cons.mp h
    change (checkIdentifier name >>= fun _ => rest.forM checkIdentifier) = .ok ()
    rw [checkIdentifier_of_identifier hname]
    exact ih hrest

/-- The check of a view lets through the views that are checked. -/
theorem checkView_iff {v : View} : checkView v = .ok () ↔ v.Checked := by
  refine ⟨checked_of_checkView, fun h => ?_⟩
  have hcolumns : (v.columns.toList.filterMap id).forM checkIdentifier = .ok () := by
    refine forM_checkIdentifier fun name hname => ?_
    obtain ⟨column, hcolumn, heq⟩ := List.mem_filterMap.mp hname
    obtain ⟨level, hlevel⟩ := PerLevel.mem_toList.mp hcolumn
    exact h.column level name (hlevel.trans heq)
  have hcarries : (v.level.upTo.find? fun level => (v.columns.get level).isNone) = none := by
    refine List.find?_eq_none.mpr fun level hlevel => ?_
    have hdepth : level.depth ≤ v.level.depth := of_decide_eq_true (List.mem_filter.mp hlevel).2
    have hsome := h.carries level hdepth
    simpa [Option.isSome_iff_ne_none] using hsome
  rw [checkView, bind_eq_ok]
  refine ⟨(), checkIdentifier_of_identifier h.name, ?_⟩
  rw [bind_eq_ok]
  refine ⟨(), hcolumns, ?_⟩
  rw [hcarries]

/-- A view is placed if it is checked and the place of its level is free. -/
theorem placeView_iff {slots slots' : PerLevel (Option View)} {v : View} :
    placeView slots v = .ok slots' ↔
      v.Checked ∧ slots.get v.level = none ∧ slots' = slots.set v.level (some v) := by
  rw [placeView, bind_eq_ok]
  constructor
  · rintro ⟨u, hcheck, h⟩
    by_cases hfree : (slots.get v.level).isSome = true
    · rw [if_pos hfree] at h
      cases h
    · rw [if_neg hfree] at h
      cases h
      exact ⟨checked_of_checkView hcheck, Option.not_isSome_iff_eq_none.mp hfree, rfl⟩
  · rintro ⟨hcheck, hfree, rfl⟩
    refine ⟨(), checkView_iff.mpr hcheck, ?_⟩
    rw [hfree]
    rfl

/-- The views of a level among several. -/
def viewsOf (level : Level) (views : List View) : List View := views.filter fun v => v.level = level

/-- What is in the place of a level after a view was put into the free place of its own. -/
theorem toList_set {slots : PerLevel (Option View)} {v : View} (hfree : slots.get v.level = none)
    (level : Level) : ((slots.set v.level (some v)).get level).toList =
      (slots.get level).toList ++ viewsOf level [v] := by
  by_cases hlevel : v.level = level
  · subst hlevel
    rw [PerLevel.get_set_self, hfree]
    simp [viewsOf]
  · rw [PerLevel.get_set_of_ne _ _ (Ne.symm hlevel)]
    simp [viewsOf, hlevel]

/-- Views are placed one after the other exactly if all are checked and in the place of each level there is,
with what was there before, no more than one. -/
theorem foldlM_placeView_iff {slots slots' : PerLevel (Option View)} {views : List View} :
    views.foldlM placeView slots = .ok slots' ↔ (∀ v ∈ views, v.Checked) ∧
      ∀ level, (slots'.get level).toList = (slots.get level).toList ++ viewsOf level views := by
  induction views generalizing slots with
  | nil =>
    rw [List.foldlM_nil]
    constructor
    · rintro ⟨⟩
      exact ⟨nofun, fun level => (List.append_nil _).symm⟩
    · rintro ⟨-, h⟩
      refine congrArg Except.ok (PerLevel.get_ext fun level => Option.ext fun v => ?_)
      rw [← Option.mem_toList, ← Option.mem_toList, h level, viewsOf, List.filter_nil, List.append_nil]
  | cons v rest ih =>
    have hsplit (level : Level) : viewsOf level (v :: rest) = viewsOf level [v] ++ viewsOf level rest :=
      List.filter_append [v] rest
    rw [List.foldlM_cons, bind_eq_ok]
    constructor
    · rintro ⟨next, hplace, hrest⟩
      obtain ⟨hcheck, hfree, rfl⟩ := placeView_iff.mp hplace
      obtain ⟨hchecked, hplaces⟩ := ih.mp hrest
      refine ⟨List.forall_mem_cons.mpr ⟨hcheck, hchecked⟩, fun level => ?_⟩
      rw [hplaces, toList_set hfree, hsplit, List.append_assoc]
    · rintro ⟨hchecked, hplaces⟩
      obtain ⟨hcheck, hrest⟩ := List.forall_mem_cons.mp hchecked
      have hfree : slots.get v.level = none := by
        have hplace := congrArg List.length (hplaces v.level)
        have hself : viewsOf v.level [v] = [v] := by simp [viewsOf]
        rw [hsplit, hself] at hplace
        cases hslot : slots.get v.level with
        | none => rfl
        | some w =>
          have hone : (slots'.get v.level).toList.length ≤ 1 := by cases slots'.get v.level <;> simp
          rw [hplace, hslot] at hone
          simp at hone
      refine ⟨_, placeView_iff.mpr ⟨hcheck, hfree, rfl⟩, ih.mpr ⟨hrest, fun level => ?_⟩⟩
      rw [hplaces, toList_set hfree, hsplit, List.append_assoc]

theorem takeView_iff {slots : PerLevel (Option View)} {level : Level} {v : View} :
    takeView slots level = .ok v ↔ slots.get level = some v := by
  refine ⟨get_of_takeView, fun h => ?_⟩
  rw [takeView, h]

theorem checkQualifiers_iff {qualifiers : List (String × Level)} :
    checkQualifiers qualifiers = .ok () ↔ ∀ entry ∈ qualifiers, entry.2 ≠ .base := by
  unfold checkQualifiers
  cases hfind : qualifiers.find? fun entry => entry.2 = .base with
  | none =>
    have hnone := List.find?_eq_none.mp hfind
    simpa using hnone
  | some entry =>
    have hbase : entry.2 = .base := by simpa using List.find?_some hfind
    constructor
    · rintro ⟨⟩
    · intro h
      exact absurd hbase (h entry (List.mem_of_find?_eq_some hfind))

/-- A catalog is built exactly if all names are plain, the views are checked and there is one for each
level, which then stands in the place of the level, and no qualifier leads to the record itself. -/
theorem build_iff_views {views : List View} {idColumn : String} {qualifiers : List (String × Level)}
    {c : Catalog} :
    build views idColumn qualifiers = .ok c ↔
      Ascii.isIdentifier idColumn = true ∧ (∀ v ∈ views, v.Checked) ∧
        (∀ level, viewsOf level views = [c.views.get level]) ∧
        (∀ entry ∈ qualifiers, entry.2 ≠ .base) ∧ c.idColumn = idColumn ∧ c.qualifiers = qualifiers := by
  rw [build]
  simp only [bind_eq_ok]
  constructor
  · rintro ⟨⟨⟩, hid, slots, hslots, ⟨⟩, hqualifiers, base, hbase, first, hfirst, second, hsecond, h⟩
    cases h
    obtain ⟨hchecked, hplaces⟩ := foldlM_placeView_iff.mp hslots
    refine ⟨isIdentifier_of_checkIdentifier hid, hchecked, fun level => ?_,
      checkQualifiers_iff.mp hqualifiers, rfl, rfl⟩
    have hplace : slots.get level = some ((PerLevel.mk base first second).get level) := by
      cases level with
      | base => exact takeView_iff.mp hbase
      | first => exact takeView_iff.mp hfirst
      | second => exact takeView_iff.mp hsecond
    have hlevel := hplaces level
    rw [hplace, PerLevel.get_replicate] at hlevel
    exact hlevel.symm
  · rintro ⟨hid, hchecked, hviews, hqualifiers, rfl, rfl⟩
    obtain ⟨⟨base, first, second⟩, idColumn, qualifiers⟩ := c
    refine ⟨(), checkIdentifier_of_identifier hid, ⟨some base, some first, some second⟩,
      foldlM_placeView_iff.mpr ⟨hchecked, fun level => ?_⟩, (), checkQualifiers_iff.mpr hqualifiers,
      base, rfl, first, rfl, second, rfl, rfl⟩
    rw [hviews level, PerLevel.get_replicate]
    cases level <;> rfl

/-- A catalog that is built is lawful. -/
theorem lawful_of_build {views : List View} {idColumn : String} {qualifiers : List (String × Level)}
    {c : Catalog} (h : build views idColumn qualifiers = .ok c) : c.Lawful := by
  have hchecked := checked_of_build h
  obtain ⟨-, -, -, hqualifiers, -, rfl⟩ := build_iff_views.mp h
  refine ⟨Ascii.isIdentifier_iff.mp hchecked.idColumn, fun level => View.checked_iff.mp (hchecked.view level),
    hchecked.place, fun level carried hdepth => ?_, hqualifiers⟩
  have hview := View.checked_iff.mp (hchecked.view level)
  rw [← hchecked.place level] at hdepth
  obtain ⟨column, hcolumn⟩ := hview.carries carried hdepth
  refine ⟨_, column, hview.name, hview.column carried column hcolumn, ?_⟩
  rw [View.qualified, hcolumn, Option.map_some]

/-- Every catalog that a program can come to hold is lawful. -/
theorem Accepted.lawful {c : Catalog} (hc : c.Accepted) : c.Lawful := by
  obtain ⟨views, idColumn, qualifiers, h⟩ := hc.built_of
  exact lawful_of_build h

/-- A catalog is built from a list of views exactly if the id column, the names of the views and their columns
are identifiers, each view has a column for every level up to its own, there is exactly one view for each
level, and no qualifier leads to the record itself. The order of the views is of no account: the view of a
level is the one of that level in the list. The catalogs of settings, which may take parts of the bundled
one, are lawful like those that are built. -/
theorem build_of_lawful_parts (views : List View) (idColumn : String) (qualifiers : List (String × Level)) :
    ((∃ c, build views idColumn qualifiers = .ok c) ↔
      Ascii.Identifier idColumn ∧
        (∀ v ∈ views, Ascii.Identifier v.name ∧
          (∀ level column, v.columns.get level = some column → Ascii.Identifier column) ∧
          ∀ level : Level, level.depth ≤ v.level.depth → ∃ column, v.columns.get level = some column) ∧
        (∀ level, (views.filter fun v => v.level = level).length = 1) ∧
        ∀ entry ∈ qualifiers, entry.2 ≠ .base) ∧
      (∀ c, build views idColumn qualifiers = .ok c →
        (∀ order : List View, order.Perm views → build order idColumn qualifiers = .ok c) ∧
          (∀ level, c.views.get level ∈ views ∧ (c.views.get level).level = level) ∧
          c.idColumn = idColumn ∧ c.qualifiers = qualifiers ∧ c.Lawful) ∧
      ∀ settings c, Settings.toCatalog settings = .ok c → c.Lawful := by
  have hviews : (∀ v ∈ views, v.Checked) ↔ ∀ v ∈ views, Ascii.Identifier v.name ∧
      (∀ level column, v.columns.get level = some column → Ascii.Identifier column) ∧
      ∀ level : Level, level.depth ≤ v.level.depth → ∃ column, v.columns.get level = some column := by
    refine forall_congr' fun v => forall_congr' fun _ => View.checked_iff.trans ?_
    exact ⟨fun h => ⟨h.name, h.column, h.carries⟩, fun ⟨hname, hcolumn, hcarries⟩ => ⟨hname, hcolumn, hcarries⟩⟩
  refine ⟨⟨?_, ?_⟩, fun c h => ⟨fun order horder => ?_, fun level => ?_, ?_⟩,
    fun settings c h => Accepted.lawful (.configured h)⟩
  · rintro ⟨c, h⟩
    obtain ⟨hid, hchecked, hplaces, hqualifiers, -, -⟩ := build_iff_views.mp h
    exact ⟨Ascii.isIdentifier_iff.mp hid, hviews.mp hchecked, fun level => congrArg List.length (hplaces level),
      hqualifiers⟩
  · rintro ⟨hid, hchecked, hplaces, hqualifiers⟩
    obtain ⟨chosen, hchosen⟩ := PerLevel.exists_get fun level => List.length_eq_one_iff.mp (hplaces level)
    exact ⟨⟨chosen, idColumn, qualifiers⟩, build_iff_views.mpr ⟨Ascii.isIdentifier_iff.mpr hid,
      hviews.mpr hchecked, hchosen, hqualifiers, rfl, rfl⟩⟩
  · -- The views of a level in another order are the same one view.
    obtain ⟨hid, hchecked, hplaces, hparts⟩ := build_iff_views.mp h
    refine build_iff_views.mpr ⟨hid, fun v hv => hchecked v (horder.mem_iff.mp hv), fun level => ?_, hparts⟩
    have hperm : (viewsOf level order).Perm (viewsOf level views) := horder.filter _
    rw [hplaces level] at hperm
    exact List.perm_singleton.mp hperm
  · obtain ⟨-, -, hplaces, -⟩ := build_iff_views.mp h
    have hmem : c.views.get level ∈ viewsOf level views := by
      rw [hplaces level]
      exact List.mem_singleton_self _
    obtain ⟨hview, hlevel⟩ := List.mem_filter.mp hmem
    exact ⟨hview, of_decide_eq_true hlevel⟩
  · obtain ⟨-, -, -, -, hid, hqualifiers⟩ := build_iff_views.mp h
    exact ⟨hid, hqualifiers, lawful_of_build h⟩

/-- The views of the bundled catalog make the same catalog the other way round. -/
theorem build_of_lawful_parts_reversed :
    build inventory.views.toList.reverse inventory.idColumn inventory.qualifiers = .ok inventory ∧
      inventory.Lawful := by
  obtain ⟨-, hbuilt, -⟩ :=
    build_of_lawful_parts inventory.views.toList inventory.idColumn inventory.qualifiers
  obtain ⟨horder, -, -, -, hlawful⟩ := hbuilt inventory build_inventory
  exact ⟨horder _ (List.reverse_perm _), hlawful⟩

end Catalog

end InventoryFeed

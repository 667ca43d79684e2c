import InventoryFeed.Catalog.Aliases
import InventoryFeed.Proofs.Catalog.Built
import Mathlib.Data.List.Induction

/-!
# Aliases of one level

The columns of a view are those of the last keys that name the levels. So the order of its aliases is of no
account exactly if no two keys name the same level and different columns, and then it is of none to the
catalog. Nothing refuses a view with two such keys.
-/

namespace InventoryFeed

namespace ViewSettings

variable {view : String} {aliases : List (String × String)} {found : PerLevel (Option String)}
  {level : Level}

theorem lastColumn_concat (level : Level) (earlier : List (String × String)) (a : String × String) :
    lastColumn level (earlier ++ [a]) =
      if levelOf? a.1 = some level then some a.2 else lastColumn level earlier := by
  rw [lastColumn, List.reverse_append]
  change ((a :: earlier.reverse).find? _).map _ = _
  rw [List.find?_cons]
  by_cases hread : levelOf? a.1 = some level
  · rw [if_pos hread, decide_eq_true hread]
    rfl
  · rw [if_neg hread, decide_eq_false hread]
    rfl

theorem exists_of_lastColumn {column : String} (h : lastColumn level aliases = some column) :
    ∃ a ∈ aliases, levelOf? a.1 = some level ∧ a.2 = column := by
  obtain ⟨a, hfind, hcolumn⟩ := Option.map_eq_some_iff.mp h
  have hread := List.find?_some hfind
  exact ⟨a, List.mem_reverse.mp (List.mem_of_find?_eq_some hfind),
    of_decide_eq_true hread, hcolumn⟩

theorem lastColumn_ne_none {a : String × String} (ha : a ∈ aliases)
    (hread : levelOf? a.1 = some level) : lastColumn level aliases ≠ none := by
  intro hnone
  have hfind := List.find?_eq_none.mp (Option.map_eq_none_iff.mp hnone)
  exact hfind a (List.mem_reverse.mpr ha) (decide_eq_true hread)

theorem columns_concat {earlier : List (String × String)} {a : String × String} :
    columns view (earlier ++ [a]) = .ok found ↔ ∃ before named, columns view earlier = .ok before ∧
      levelOf? a.1 = some named ∧ found = before.set named (some a.2) := by
  rw [columns, List.foldlM_append, bind_eq_ok]
  change (∃ before, columns view earlier = .ok before ∧ _) ↔ _
  refine exists_congr fun before => ?_
  rw [List.foldlM_cons, levelOf?]
  cases hread : Level.read a.1 with
  | error cause => simp [bind, Except.bind, Except.toOption]
  | ok named => simp [bind, Except.bind, pure, Except.pure, Except.toOption, eq_comm]

theorem get_set_lastColumn {before : PerLevel (Option String)} {earlier : List (String × String)}
    {a : String × String} {named : Level} (hread : levelOf? a.1 = some named)
    (hbefore : ∀ level, before.get level = lastColumn level earlier) (level : Level) :
    (before.set named (some a.2)).get level = lastColumn level (earlier ++ [a]) := by
  rw [lastColumn_concat, hread]
  by_cases heq : level = named
  · rw [heq, PerLevel.get_set_self, if_pos rfl]
  · rw [PerLevel.get_set_of_ne _ _ heq, hbefore, if_neg fun h => heq (Option.some.inj h).symm]

/-- The columns of a view are found exactly if every key names a level, and the column of a level is that of
the last key that names it. -/
theorem columns_eq_ok : columns view aliases = .ok found ↔
    (∀ a ∈ aliases, ∃ level, levelOf? a.1 = some level) ∧
      ∀ level, found.get level = lastColumn level aliases := by
  induction aliases using List.reverseRecOn generalizing found with
  | nil =>
    constructor
    · rintro ⟨⟩
      exact ⟨nofun, fun level => PerLevel.get_replicate none level⟩
    · rintro ⟨-, hfound⟩
      refine congrArg Except.ok (PerLevel.get_ext fun level => ?_)
      rw [hfound, PerLevel.get_replicate]
      rfl
  | append_singleton earlier a ih =>
    rw [columns_concat]
    constructor
    · rintro ⟨before, named, hbefore, hread, rfl⟩
      obtain ⟨hearlier, hcolumns⟩ := ih.mp hbefore
      refine ⟨List.forall_mem_append.mpr ⟨hearlier, List.forall_mem_singleton.mpr ⟨named, hread⟩⟩,
        fun level => ?_⟩
      rw [get_set_lastColumn hread hcolumns]
    · rintro ⟨hread, hfound⟩
      obtain ⟨hearlier, hlast⟩ := List.forall_mem_append.mp hread
      obtain ⟨named, hnamed⟩ := List.forall_mem_singleton.mp hlast
      obtain ⟨before, hbefore⟩ := PerLevel.exists_get fun level => ⟨lastColumn level earlier, rfl⟩
      refine ⟨before, named, ih.mpr ⟨hearlier, fun level => (hbefore level).symm⟩, hnamed, ?_⟩
      exact PerLevel.get_ext fun level =>
        (hfound level).trans (get_set_lastColumn hnamed (fun level => (hbefore level).symm) level).symm

/-- Without a clash the order of the keys is of no account to their columns. -/
theorem lastColumn_perm {entry other : ViewSettings} (h : ¬ entry.Clashes)
    (hother : entry.Reordered other) (level : Level) :
    lastColumn level other.aliases = lastColumn level entry.aliases := by
  cases hcolumn : lastColumn level other.aliases with
  | none =>
    cases hown : lastColumn level entry.aliases with
    | none => rfl
    | some column =>
      obtain ⟨a, ha, hread, -⟩ := exists_of_lastColumn hown
      exact absurd hcolumn (lastColumn_ne_none (hother.aliases.mem_iff.mpr ha) hread)
  | some column =>
    obtain ⟨a, ha, haread, rfl⟩ := exists_of_lastColumn hcolumn
    have ha := hother.aliases.mem_iff.mp ha
    obtain ⟨column, hown⟩ := Option.ne_none_iff_exists'.mp (lastColumn_ne_none ha haread)
    obtain ⟨b, hb, hbread, rfl⟩ := exists_of_lastColumn hown
    rw [hown]
    by_contra hne
    exact h ⟨a, ha, b, hb, level, haread, hbread, fun heq => hne (congrArg some heq)⟩

/-- A view is described exactly if its level can be read and its columns are found. -/
theorem toView_eq_ok {entry : ViewSettings} {v : View} : entry.toView = .ok v ↔
    Level.read entry.level = .ok v.level ∧ columns entry.name entry.aliases = .ok v.columns ∧
      v.name = entry.name := by
  rw [toView]
  cases hlevel : Level.read entry.level with
  | error cause => simp
  | ok level =>
    dsimp only
    rw [bind_eq_ok]
    constructor
    · rintro ⟨found, hfound, h⟩
      cases h
      exact ⟨rfl, hfound, rfl⟩
    · rintro ⟨hread, hfound, hname⟩
      cases hread
      rw [← hname] at hfound ⊢
      exact ⟨v.columns, hfound, rfl⟩

/-- Without a clash a view is the same whatever the order of its aliases. -/
theorem toView_of_reordered {entry other : ViewSettings} {v : View} (h : ¬ entry.Clashes)
    (hother : entry.Reordered other) (hv : entry.toView = .ok v) : other.toView = .ok v := by
  obtain ⟨hlevel, hfound, hname⟩ := toView_eq_ok.mp hv
  obtain ⟨hread, hcolumns⟩ := columns_eq_ok.mp hfound
  refine toView_eq_ok.mpr ⟨hother.level ▸ hlevel, columns_eq_ok.mpr ⟨fun a ha => ?_, fun level => ?_⟩,
    hname.trans hother.name.symm⟩
  · exact hread a (hother.aliases.mem_iff.mp ha)
  · rw [hcolumns, lastColumn_perm h hother]

/-- Any key of a level may be the last of them. -/
theorem exists_last {entry : ViewSettings} {a : String × String} (ha : a ∈ entry.aliases)
    {level : Level} (hread : levelOf? a.1 = some level) : ∃ other, entry.Reordered other ∧
      ∀ v, other.toView = .ok v → v.columns.get level = some a.2 := by
  refine ⟨{ entry with aliases := entry.aliases.erase a ++ [a] }, ⟨rfl, rfl, ?_⟩, fun v hv => ?_⟩
  · exact (List.perm_append_singleton a _).trans (List.perm_cons_erase ha).symm
  · obtain ⟨-, hfound, -⟩ := toView_eq_ok.mp hv
    rw [(columns_eq_ok.mp hfound).2, lastColumn_concat, if_pos hread]

/-- With a clash there are two orders that do not describe the same view. -/
theorem Clashes.exists_orders {entry : ViewSettings} (h : entry.Clashes) : ∃ one two,
    entry.Reordered one ∧ entry.Reordered two ∧
      ∀ v, one.toView = .ok v → two.toView ≠ .ok v := by
  obtain ⟨a, ha, b, hb, level, halevel, hblevel, hne⟩ := h
  obtain ⟨one, hone, hacolumn⟩ := exists_last ha halevel
  obtain ⟨two, htwo, hbcolumn⟩ := exists_last hb hblevel
  refine ⟨one, two, hone, htwo, fun v hv hw => hne ?_⟩
  exact Option.some.inj ((hacolumn v hv).symm.trans (hbcolumn v hw))

theorem Reordered.refl (entry : ViewSettings) : entry.Reordered entry := ⟨rfl, rfl, .refl _⟩

/-- Without clashes the views are the same whatever the order of their aliases. -/
theorem mapM_toView_of_reordered {entries others : List ViewSettings} {views : List View}
    (h : ∀ entry ∈ entries, ¬ entry.Clashes) (hothers : List.Forall₂ Reordered entries others)
    (hviews : entries.mapM toView = .ok views) : others.mapM toView = .ok views := by
  induction hothers generalizing views with
  | nil => exact hviews
  | cons hother _ ih =>
    obtain ⟨hfirst, hrest⟩ := List.forall_mem_cons.mp h
    obtain ⟨v, more, hv, hmore, rfl⟩ := mapM_cons_eq_ok.mp hviews
    exact mapM_cons_eq_ok.mpr ⟨v, more, toView_of_reordered hfirst hother hv, ih hrest hmore, rfl⟩

end ViewSettings

namespace CatalogSettings

open ViewSettings (toView)

/-- A section that states views makes the catalog that is built from them. -/
theorem toCatalog_eq_ok {s : CatalogSettings} (hstated : s.views ≠ []) {c : Catalog} :
    s.toCatalog = .ok c ↔ ∃ views, s.views.mapM toView = .ok views ∧ ∃ qualifiers,
      (match s.qualifiers with
        | some qualifiers => levels qualifiers
        | none => .ok Catalog.inventory.qualifiers) = .ok qualifiers ∧
      Catalog.build views (s.idColumn.getD Catalog.inventory.idColumn) qualifiers = .ok c := by
  have hnonempty : s.views.isEmpty = false := by simpa using hstated
  obtain ⟨idColumn, qualifiers, views⟩ := s
  dsimp only at hnonempty
  cases qualifiers
  all_goals
    rw [toCatalog]
    simp only [hnonempty]
    rw [if_neg Bool.false_ne_true, bind_eq_ok]
    refine exists_congr fun views => and_congr_right fun _ => ?_
    rw [bind_eq_ok]
    exact exists_congr fun _ => and_congr_right fun _ =>
      ⟨Catalog.build_of_passed, fun h => by rw [h]; rfl⟩

/-- Without clashes a section makes the same catalog whatever the order of its aliases. -/
theorem toCatalog_of_reordered {s other : CatalogSettings} {c : Catalog}
    (h : ∀ entry ∈ s.views, ¬ entry.Clashes) (hother : s.Reordered other) (hc : s.toCatalog = .ok c) :
    other.toCatalog = .ok c := by
  obtain ⟨idColumn, qualifiers, views⟩ := s
  obtain ⟨_, _, others⟩ := other
  obtain ⟨rfl, rfl, hviews⟩ := hother
  by_cases hstated : views = []
  · subst hstated
    cases List.forall₂_nil_left_iff.mp hviews
    exact hc
  · have hothers : others ≠ [] := by
      rintro rfl
      exact hstated (List.forall₂_nil_right_iff.mp hviews)
    obtain ⟨built, hbuilt, hrest⟩ := (toCatalog_eq_ok hstated).mp hc
    exact (toCatalog_eq_ok hothers).mpr ⟨built, ViewSettings.mapM_toView_of_reordered h hviews hbuilt, hrest⟩

/-- The section with another view in the place of one of its own. -/
def replace (s : CatalogSettings) (entry other : ViewSettings) : CatalogSettings :=
  { s with views := s.views.map fun e => if e = entry then other else e }

theorem reordered_replace {entry other : ViewSettings} (s : CatalogSettings)
    (h : entry.Reordered other) : s.Reordered (s.replace entry other) := by
  refine ⟨rfl, rfl, List.forall₂_map_right_iff.mpr (List.forall₂_same.mpr fun e _ => ?_)⟩
  split
  · rename_i heq
    exact heq ▸ h
  · exact .refl e

/-- The view that stands in another's place is the catalog's view of its level. -/
theorem view_of_replace {s : CatalogSettings} {entry other : ViewSettings} (hentry : entry ∈ s.views)
    {c : Catalog} (hc : (s.replace entry other).toCatalog = .ok c) :
    ∃ v, other.toView = .ok v ∧ c.views.get v.level = v := by
  have hmem : other ∈ (s.replace entry other).views :=
    List.mem_map.mpr ⟨entry, hentry, if_pos rfl⟩
  obtain ⟨views, hviews, qualifiers, -, hbuild⟩ := (toCatalog_eq_ok (List.ne_nil_of_mem hmem)).mp hc
  obtain ⟨v, hv, htoView⟩ := mem_of_mapM hviews other hmem
  obtain ⟨-, -, hplaces, -⟩ := Catalog.build_iff_views.mp hbuild
  have hplace : v ∈ Catalog.viewsOf v.level views := List.mem_filter.mpr ⟨hv, decide_eq_true rfl⟩
  rw [hplaces] at hplace
  exact ⟨v, htoView, (List.mem_singleton.mp hplace).symm⟩

/-- With a clash there are two orders that do not make the same catalog. -/
theorem exists_orders {s : CatalogSettings} {entry : ViewSettings} (hentry : entry ∈ s.views)
    (h : entry.Clashes) : ∃ one two, s.Reordered one ∧ s.Reordered two ∧
      ∀ c, one.toCatalog = .ok c → two.toCatalog ≠ .ok c := by
  obtain ⟨one, two, hone, htwo, hdiffer⟩ := h.exists_orders
  refine ⟨_, _, reordered_replace s hone, reordered_replace s htwo, fun c hc hc' => ?_⟩
  obtain ⟨v, hv, hplace⟩ := view_of_replace hentry hc
  obtain ⟨w, hw, hplace'⟩ := view_of_replace hentry hc'
  have hlevel : v.level = w.level := by
    have hread := (ViewSettings.toView_eq_ok.mp hv).1
    have hread' := (ViewSettings.toView_eq_ok.mp hw).1
    rw [hone.level] at hread
    rw [htwo.level, hread] at hread'
    exact Except.ok.inj hread'
  have hsame : v = w := by rw [← hplace, hlevel, hplace']
  exact hdiffer v hv (hsame ▸ hw)

end CatalogSettings

/-- A view that is accepted is the same whatever the order of its aliases, and so is the catalog of a section,
exactly if no two keys of a view name the same level and different columns. Nothing refuses two such keys: the
order chooses the column. -/
theorem settled_iff_no_clash (entry : ViewSettings) (s : CatalogSettings) :
    (∀ v, entry.toView = .ok v →
      ((∀ other, entry.Reordered other → other.toView = .ok v) ↔ ¬ entry.Clashes)) ∧
    ∀ c, s.toCatalog = .ok c →
      ((∀ other, s.Reordered other → other.toCatalog = .ok c) ↔ ∀ entry ∈ s.views, ¬ entry.Clashes) := by
  refine ⟨fun v hv => ⟨fun hsettled hclash => ?_, fun h other hother => ?_⟩,
    fun c hc => ⟨fun hsettled entry hentry hclash => ?_, fun h other hother => ?_⟩⟩
  · obtain ⟨one, two, hone, htwo, hdiffer⟩ := hclash.exists_orders
    exact hdiffer v (hsettled one hone) (hsettled two htwo)
  · exact ViewSettings.toView_of_reordered h hother hv
  · obtain ⟨one, two, hone, htwo, hdiffer⟩ := CatalogSettings.exists_orders hentry hclash
    exact hdiffer c (hsettled one hone) (hsettled two htwo)
  · exact CatalogSettings.toCatalog_of_reordered h hother hc

/-- Two keys of one level that name the same column do not clash. -/
theorem settled_iff_no_clash_cased :
    let entry : ViewSettings := ⟨"joined_l1", "instance_holding_view",
      [("BASE", "jsonb"), ("JOINED_L1", "ho_jsonb"), ("Joined_l1", "ho_jsonb")]⟩
    let s : CatalogSettings := ⟨none, none,
      [⟨"Base", "instance", [("base", "jsonb")]⟩, entry,
        ⟨"JOINED_L2", "instance_holding_item_view",
          [("BASE", "jsonb"), ("JOINED_L1", "ho_jsonb"), ("JOINED_L2", "it_jsonb")]⟩]⟩
    (∃ v, entry.toView = .ok v ∧ ∀ other, entry.Reordered other → other.toView = .ok v) ∧
      ∃ c, s.toCatalog = .ok c ∧ ∀ other, s.Reordered other → other.toCatalog = .ok c :=
  ⟨⟨_, rfl, ((settled_iff_no_clash _ ⟨none, none, []⟩).1 _ rfl).mpr (by decide)⟩,
    _, rfl, ((settled_iff_no_clash ⟨"", "", []⟩ _).2 _ rfl).mpr (by decide)⟩

/-- Two keys that differ in letter case only: the order chooses between two catalogs. -/
theorem order_chooses_column :
    let s (aliases : List (String × String)) : CatalogSettings := ⟨none, none,
      [⟨"BASE", "instance", [("BASE", "jsonb")]⟩, ⟨"JOINED_L1", "instance_holding_view", aliases⟩,
        ⟨"JOINED_L2", "instance_holding_item_view",
          [("BASE", "jsonb"), ("JOINED_L1", "ho_jsonb"), ("JOINED_L2", "it_jsonb")]⟩]⟩
    let one := s [("BASE", "jsonb"), ("JOINED_L1", "ho_jsonb"), ("joined_l1", "other_jsonb")]
    let two := s [("BASE", "jsonb"), ("joined_l1", "other_jsonb"), ("JOINED_L1", "ho_jsonb")]
    one.Reordered two ∧ ∃ c c', one.toCatalog = .ok c ∧ two.toCatalog = .ok c' ∧ c ≠ c' := by
  refine ⟨⟨rfl, rfl, .cons (.refl _) (.cons ⟨rfl, rfl, ?_⟩ (.cons (.refl _) .nil))⟩, _, _, rfl, rfl, ?_⟩
  · exact .cons _ (.swap _ _ _)
  · decide

end InventoryFeed

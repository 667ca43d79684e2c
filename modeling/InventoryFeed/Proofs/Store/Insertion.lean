import InventoryFeed.Store.Insertion
import Mathlib.Data.List.Induction
import Mathlib.Data.List.Nodup

/-!
# What insertions keep

However records are inserted, each id stands once in its table, every document is the text of one that was
inserted, and an instance names no record above it. The document of an instance or of an authority is the one
with which it was inserted last.
-/

namespace InventoryFeed

/-- Tables as insertions leave them, each document being the text of one that `written` allows. -/
structure Inventory.Kept (written : Document → Prop) (s : Inventory) : Prop where
  there : s.dropped = []
  ids : ∀ kind, ((s.table kind).map (·.id)).Nodup
  parents : ∀ r ∈ s.instances, r.parent = none
  docs : ∀ kind, ∀ r ∈ s.table kind, ∃ d, written d ∧ r.doc = d.compact

namespace RecordTable

variable {t : RecordTable} {id : String} {parent : Option String} {doc : String}

theorem mem_put {r : StoredRecord} :
    r ∈ t.put id parent doc ↔ (r ∈ t ∧ r.id ≠ id) ∨ r = ⟨t.nextRow, id, parent, doc⟩ := by
  simp [put]

theorem mem_ids_put {other : String} :
    other ∈ (t.put id parent doc).map (·.id) ↔ other ∈ t.map (·.id) ∨ other = id := by
  simp only [List.mem_map, mem_put]
  constructor
  · rintro ⟨r, ⟨hr, -⟩ | rfl, rfl⟩
    · exact .inl ⟨r, hr, rfl⟩
    · exact .inr rfl
  · rintro (⟨r, hr, rfl⟩ | rfl)
    · by_cases heq : r.id = id
      · exact ⟨_, .inr rfl, heq.symm⟩
      · exact ⟨r, .inl ⟨hr, heq⟩, rfl⟩
    · exact ⟨_, .inr rfl, rfl⟩

theorem nodup_put (h : (t.map (·.id)).Nodup) : ((t.put id parent doc).map (·.id)).Nodup := by
  rw [put, List.map_append, List.map_cons, List.map_nil, ← List.concat_eq_append,
    List.nodup_concat]
  refine ⟨?_, (List.filter_sublist.map _).nodup h⟩
  intro hmem
  obtain ⟨r, hr, hid⟩ := List.mem_map.mp hmem
  exact of_decide_eq_true (List.mem_filter.mp hr).2 hid

end RecordTable

theorem Insertion.exists_of_last {insertions : List Insertion} {kind : RecordKind} {id : String}
    {d : Document} (h : last? insertions kind id = some d) : ∃ i ∈ insertions, i.doc = d := by
  obtain ⟨i, hfind, hdoc⟩ := Option.map_eq_some_iff.mp h
  exact ⟨i, List.mem_reverse.mp (List.mem_of_find?_eq_some hfind), hdoc⟩

namespace Inventory

variable {written : Document → Prop} {s s' : Inventory}

theorem table_withTable (s : Inventory) (kind other : RecordKind) (t : RecordTable) :
    (s.withTable kind t).table other = if other = kind then t else s.table other := by
  cases kind <;> cases other <;> rfl

theorem dropped_withTable (s : Inventory) (kind : RecordKind) (t : RecordTable) :
    (s.withTable kind t).dropped = s.dropped := by
  cases kind <;> rfl

theorem kept_empty : Kept written empty where
  there := rfl
  ids := by
    rintro (_ | _) <;> exact .nil
  parents := fun _ h => absurd h List.not_mem_nil
  docs := by
    rintro (_ | _) _ h <;> cases h

theorem Kept.insertText (h : s.Kept written) {kind : RecordKind} {id : String}
    {parent : Option String} {d : Document} (hd : written d)
    (hparent : kind = .instances → parent = none)
    (hs : s.insertText kind id parent d.compact = .ok s') : s'.Kept written := by
  rw [Inventory.insertText] at hs
  split at hs
  · cases hs
    refine ⟨?_, fun other => ?_, ?_, fun other r hr => ?_⟩
    · rw [dropped_withTable, h.there]
    · rw [table_withTable]
      split
      · exact RecordTable.nodup_put (h.ids kind)
      · exact h.ids other
    · intro r hr
      change r ∈ (s.withTable kind _).table .instances at hr
      rw [table_withTable] at hr
      split at hr
      · rename_i hkind
        rcases RecordTable.mem_put.mp hr with ⟨hr, -⟩ | rfl
        · rw [← hkind] at hr
          exact h.parents r hr
        · exact hparent hkind.symm
      · exact h.parents r hr
    · rw [table_withTable] at hr
      split at hr
      · rcases RecordTable.mem_put.mp hr with ⟨hr, -⟩ | rfl
        · exact h.docs kind r hr
        · exact ⟨d, hd, rfl⟩
      · exact h.docs other r hr
  · cases hs

theorem run_eq (s : Inventory) (i : Insertion) :
    i.run s = s.insertText i.kind i.id i.parent i.doc.compact := by
  cases i <;> rfl

theorem Kept.apply (h : s.Kept written) {i : Insertion} (hi : written i.doc) :
    (i.apply s).Kept written := by
  have hparent : i.kind = .instances → i.parent = none := by
    cases i <;> intro hkind <;> first | rfl | cases hkind
  rw [Insertion.apply, run_eq]
  split
  · rename_i s' hs
    exact h.insertText hi hparent hs
  · exact h

theorem after_concat (s : Inventory) (earlier : List Insertion) (i : Insertion) :
    s.after (earlier ++ [i]) = i.apply (s.after earlier) := by
  rw [after, List.foldl_append]
  rfl

/-- What insertions keep holds after any of them. -/
theorem kept_after {insertions : List Insertion} (h : ∀ i ∈ insertions, written i.doc) :
    (empty.after insertions).Kept written := by
  suffices hfrom : ∀ s : Inventory, s.Kept written → (s.after insertions).Kept written from
    hfrom _ kept_empty
  induction insertions with
  | nil => exact fun s hs => hs
  | cons i rest ih =>
    obtain ⟨hi, hrest⟩ := List.forall_mem_cons.mp h
    exact fun s hs => ih hrest _ (hs.apply hi)

/-- A record that belongs to no other is always inserted. -/
theorem Kept.table_apply (h : s.Kept written) {kind : RecordKind} (hkind : kind.parent? = none)
    (i : Insertion) : (i.apply s).table kind =
      if i.kind = kind then (s.table kind).put i.id i.parent i.doc.compact else s.table kind := by
  rw [Insertion.apply, run_eq, Inventory.insertText]
  by_cases heq : i.kind = kind
  · have hallowed : (s.isThere i.kind && s.parentAllowed i.kind i.parent) = true := by
      simp [isThere, h.there, parentAllowed, heq, hkind]
    rw [if_pos hallowed, if_pos heq]
    dsimp only
    rw [table_withTable, if_pos heq.symm, heq]
  · rw [if_neg heq]
    split
    · rename_i hs
      split at hs
      · cases hs
        rw [table_withTable, if_neg (Ne.symm heq)]
      · cases hs
    · rfl

/-- The document of such a record is the one with which it was inserted last. -/
theorem doc_eq_last (insertions : List Insertion) (kind : RecordKind) (hkind : kind.parent? = none) :
    ∀ r ∈ (empty.after insertions).table kind,
      ∃ d, Insertion.last? insertions kind r.id = some d ∧ r.doc = d.compact := by
  induction insertions using List.reverseRecOn with
  | nil =>
    cases kind <;> exact fun r hr => absurd hr List.not_mem_nil
  | append_singleton earlier i ih =>
    intro r hr
    have hkept : (empty.after earlier).Kept fun _ => True := kept_after fun _ _ => trivial
    rw [after_concat, hkept.table_apply hkind] at hr
    rw [Insertion.last?, List.reverse_append]
    change ∃ d, ((i :: earlier.reverse).find? _).map Insertion.doc = some d ∧ _
    by_cases hlast : i.kind = kind ∧ i.id = r.id
    · rw [List.find?_cons, decide_eq_true hlast]
      rw [if_pos hlast.1] at hr
      rcases RecordTable.mem_put.mp hr with ⟨-, hne⟩ | rfl
      · exact absurd hlast.2.symm hne
      · exact ⟨i.doc, rfl, rfl⟩
    · rw [List.find?_cons, decide_eq_false hlast]
      refine ih r ?_
      split at hr
      · rename_i heq
        rcases RecordTable.mem_put.mp hr with ⟨hr, -⟩ | rfl
        · exact hr
        · exact absurd ⟨heq, rfl⟩ hlast
      · exact hr

/-- Such a record's table is the one that the insertions of its kind alone make. -/
theorem table_after_filter (insertions : List Insertion) {kind : RecordKind}
    (hkind : kind.parent? = none) :
    (empty.after (insertions.filter fun i => i.kind = kind)).table kind =
      (empty.after insertions).table kind := by
  have hkept (l : List Insertion) : (empty.after l).Kept fun _ => True :=
    kept_after fun _ _ => trivial
  induction insertions using List.reverseRecOn with
  | nil => rfl
  | append_singleton earlier i ih =>
    rw [after_concat, (hkept earlier).table_apply hkind, List.filter_append]
    by_cases heq : i.kind = kind
    · have hkeeps : [i].filter (fun i => i.kind = kind) = [i] := by simp [heq]
      rw [hkeeps, after_concat, (hkept _).table_apply hkind, if_pos heq, if_pos heq, ih]
    · have hdrops : [i].filter (fun i => i.kind = kind) = [] := by simp [heq]
      rw [hdrops, List.append_nil, if_neg heq, ih]

/-- An insertion adds the id of its record to the ids of its table if it succeeds, and none otherwise. -/
theorem mem_ids_apply (s : Inventory) (i : Insertion) (kind : RecordKind) (id : String) :
    id ∈ ((i.apply s).table kind).map (·.id) ↔
      id ∈ (s.table kind).map (·.id) ∨ (i.kind = kind ∧ i.id = id ∧ (i.run s).isOk) := by
  rw [Insertion.apply, run_eq, Inventory.insertText]
  by_cases hallowed : (s.isThere i.kind && s.parentAllowed i.kind i.parent) = true
  · rw [if_pos hallowed]
    dsimp only
    rw [table_withTable]
    by_cases heq : i.kind = kind
    · rw [if_pos heq.symm, RecordTable.mem_ids_put, heq]
      simp [Except.isOk, Except.toBool, eq_comm]
    · rw [if_neg (Ne.symm heq)]
      simp [heq]
  · rw [if_neg hallowed]
    simp [Except.isOk, Except.toBool]

/-- The ids of a table are those with which a record was put into it. -/
theorem mem_ids_after (insertions : List Insertion) (kind : RecordKind) (id : String) :
    id ∈ ((empty.after insertions).table kind).map (·.id) ↔ empty.Inserted insertions kind id := by
  induction insertions using List.reverseRecOn with
  | nil => cases kind <;> simp [after, empty, table, Inserted]
  | append_singleton earlier i ih =>
    rw [after_concat, mem_ids_apply, ih]
    constructor
    · rintro (⟨before, j, hprefix, hj⟩ | hi)
      · exact ⟨before, j, hprefix.trans (List.prefix_append earlier [i]), hj⟩
      · exact ⟨earlier, i, List.prefix_rfl, hi⟩
    · rintro ⟨before, j, hprefix, hj⟩
      rcases List.prefix_concat_iff.mp hprefix with heq | hprefix
      · obtain ⟨hbefore, hlast⟩ := List.append_inj' heq rfl
        rw [hbefore, List.singleton_inj.mp hlast] at hj
        exact .inr hj
      · exact .inl ⟨before, j, hprefix, hj⟩

end Inventory

end InventoryFeed

import InventoryFeed.Proofs.Json.RoundTrip
import InventoryFeed.Proofs.Store.Cursor
import InventoryFeed.Proofs.Store.Insertion

/-!
# The corpus of a resource

The cursor over a corpus reads one table. Its rows are the records of that table, each with the document with
which it was inserted last, or without one. What is inserted into other tables does not matter.
-/

namespace InventoryFeed

namespace Store

variable {s s' : Store} {resource : Resource}

theorem corpusKind_parent (resource : Resource) : (corpusKind resource).parent? = none := by
  cases resource <;> rfl

theorem corpusRecords_perm (s : Store) (resource : Resource) :
    (s.corpusRecords resource).Perm (s.inventory.table (corpusKind resource)) := by
  cases resource with
  | instances => exact List.mergeSort_perm _ _
  | authorities => exact .refl _

/-- The cursor depends on the table of the resource only. -/
theorem corpusCursor_congr
    (hthere : s.inventory.isThere (corpusKind resource) = s'.inventory.isThere (corpusKind resource))
    (htable : s.inventory.table (corpusKind resource) = s'.inventory.table (corpusKind resource))
    (batchSize : Nat) : s.corpusCursor resource batchSize = s'.corpusCursor resource batchSize := by
  have hrecords : s.corpusRecords resource = s'.corpusRecords resource := by
    cases resource with
    | instances => exact congrArg (List.mergeSort · _) htable
    | authorities => exact htable
  rw [corpusCursor, corpusCursor, hthere, hrecords]

/-- The row that a record of a corpus is read as. -/
def corpusRow (resource : Resource) (r : StoredRecord) : Row :=
  ⟨r.id, if resource.publishesRecord then Document.read r.doc else none⟩

/-- As long as the documents of a corpus can be read and there is room for a batch, the cursor hands out all
its records, cut into batches. -/
theorem exists_cut_corpusCursor
    (hthere : s.inventory.isThere (corpusKind resource) = true)
    (hreads : ∀ r ∈ s.inventory.table (corpusKind resource), (Document.read r.doc).isSome = true)
    {batchSize : Nat} (hroom : batchSize ≤ Row.batchLimit) :
    ∃ batches, s.corpusCursor resource batchSize = batches.map .rows ∧
      Pull.Cut (max batchSize 1) batches ∧
      batches.flatten = (s.corpusRecords resource).map (corpusRow resource) := by
  rw [corpusCursor, if_pos hthere]
  refine exists_cut_pullsOf hroom (List.forall₂_map_left_iff.mpr
    (List.forall₂_map_right_iff.mpr (List.forall₂_same.mpr fun r hr => ?_)))
  cases resource with
  | instances => rfl
  | authorities =>
    obtain ⟨doc, hdoc⟩ := Option.isSome_iff_exists.mp
      (hreads r ((corpusRecords_perm s .authorities).mem_iff.mp hr))
    change (RawRow.document r.id (.text r.doc) >>= _) = Except.ok (Row.mk r.id (Document.read r.doc))
    rw [RawRow.document, hdoc]
    rfl

end Store

/-- Whatever is inserted into new tables, the cursor over the corpus of a resource hands out each id that was
inserted into its table exactly once, in batches that are full but for the last. An authority has the document
with which it was inserted last, an instance none, and the insertions into other tables change nothing. Where
there is no room for a batch the cursor finds its reader gone. -/
theorem corpus_of_insertions {insertions : List Insertion}
    (hdocs : ∀ i ∈ insertions, i.doc.Proper ∧ i.doc.Exact ∧ i.doc.depth ≤ Json.maxNesting)
    (jobs : JobTable) (resource : Resource) (batchSize : Nat) :
    let s : Store := ⟨Inventory.empty.after insertions, jobs⟩
    let kind := Store.corpusKind resource
    (batchSize ≤ Row.batchLimit →
      ∃ batches : List (List Row), s.corpusCursor resource batchSize = batches.map .rows ∧
        Pull.Cut (max batchSize 1) batches ∧
        (batches.flatten.map (·.id)).Nodup ∧
        (∀ id, id ∈ batches.flatten.map (·.id) ↔ Inventory.empty.Inserted insertions kind id) ∧
        ∀ row ∈ batches.flatten, match resource with
          | .authorities =>
            ∃ d, Insertion.last? insertions .authorities row.id = some d ∧ row.doc = some d
          | .instances => row.doc = none) ∧
      (Row.batchLimit < batchSize → s.corpusCursor resource batchSize = [.failed .readerGone]) ∧
      s.corpusCursor resource batchSize =
        (Store.mk (Inventory.empty.after (insertions.filter fun i => i.kind = kind)) jobs).corpusCursor
          resource batchSize := by
  intro s kind
  have hkept (l : List Insertion) : (Inventory.empty.after l).Kept fun _ => True :=
    Inventory.kept_after fun _ _ => trivial
  have hthere (l : List Insertion) : (Inventory.empty.after l).isThere kind = true := by
    simp [Inventory.isThere, (hkept l).there]
  have hlast : ∀ r ∈ s.inventory.table kind,
      ∃ d, Insertion.last? insertions kind r.id = some d ∧ Document.read r.doc = some d := by
    intro r hr
    obtain ⟨d, hlast, hdoc⟩ :=
      Inventory.doc_eq_last insertions kind (Store.corpusKind_parent resource) r hr
    obtain ⟨i, hi, rfl⟩ := Insertion.exists_of_last hlast
    obtain ⟨hproper, hexact, hdepth⟩ := hdocs i hi
    exact ⟨i.doc, hlast, hdoc ▸ Document.read_compact hexact hproper hdepth⟩
  have hreads : ∀ r ∈ s.inventory.table kind, (Document.read r.doc).isSome = true := by
    intro r hr
    obtain ⟨d, -, hread⟩ := hlast r hr
    rw [hread]
    rfl
  refine ⟨fun hroom => ?_, fun hnone => ?_, ?_⟩
  · obtain ⟨batches, hcursor, hcut, hrows⟩ :=
      Store.exists_cut_corpusCursor (hthere insertions) hreads hroom
    have hids : (batches.flatten.map (·.id)).Perm ((s.inventory.table kind).map (·.id)) := by
      rw [hrows, List.map_map]
      exact (Store.corpusRecords_perm s resource).map _
    refine ⟨batches, hcursor, hcut, hids.nodup_iff.mpr ((hkept insertions).ids kind), fun id => ?_, ?_⟩
    · rw [hids.mem_iff]
      exact Inventory.mem_ids_after insertions kind id
    · intro row hrow
      rw [hrows] at hrow
      obtain ⟨r, hr, rfl⟩ := List.mem_map.mp hrow
      cases resource with
      | instances => rfl
      | authorities => exact hlast r ((Store.corpusRecords_perm s .authorities).mem_iff.mp hr)
  · rw [Store.corpusCursor, if_pos (hthere insertions)]
    exact pullsOf_of_no_room hnone _
  · refine Store.corpusCursor_congr ((hthere insertions).trans (hthere _).symm) ?_ batchSize
    exact (Inventory.table_after_filter insertions (Store.corpusKind_parent resource)).symm

/-- An authority that was inserted twice stands in the corpus once, as it was inserted last, and a null
document is one. -/
theorem corpus_of_insertions_replaced : ∃ batches : List (List Row),
    (Store.mk (Inventory.empty.after [.ofAuthority "a" (.int 1), .ofInstance "a" .null,
      .ofAuthority "b" .null, .ofHoldings "h" "none" .null, .ofAuthority "a" (.bool true)])
        .empty).corpusCursor .authorities 1 = batches.map .rows ∧
    (∀ batch ∈ batches, batch.length = 1) ∧
    (batches.flatten.map (·.id)).Perm ["a", "b"] ∧
    (∀ row ∈ batches.flatten, row.id = "a" → row.doc = some (.bool true)) ∧
    ∀ row ∈ batches.flatten, row.id = "b" → row.doc = some .null := by
  let insertions : List Insertion := [.ofAuthority "a" (.int 1), .ofInstance "a" .null,
    .ofAuthority "b" .null, .ofHoldings "h" "none" .null, .ofAuthority "a" (.bool true)]
  have hdocs : ∀ i ∈ insertions, i.doc.Proper ∧ i.doc.Exact ∧ i.doc.depth ≤ Json.maxNesting := by
    simp [insertions, Insertion.doc, Document.Proper, Document.Exact, Document.depth, Word.signedEnd,
      Word.unsignedEnd]
  obtain ⟨hroom, -, -⟩ := corpus_of_insertions hdocs .empty .authorities 1
  obtain ⟨batches, hcursor, hcut, hdistinct, hids, hlast⟩ := hroom (by decide)
  have hdoc {id : String} {d : Document} (hd : Insertion.last? insertions .authorities id = some d) :
      ∀ row ∈ batches.flatten, row.id = id → row.doc = some d := by
    rintro row hrow rfl
    obtain ⟨_, hown, hdoc⟩ := hlast row hrow
    rw [hdoc, ← hown, hd]
  refine ⟨batches, hcursor, fun batch hbatch => ?_, ?_, hdoc rfl, hdoc rfl⟩
  · exact Nat.le_antisymm (hcut.room batch hbatch)
      (List.length_pos_iff.mpr (hcut.filled batch hbatch))
  · have htable : ((Inventory.empty.after insertions).table .authorities).map (·.id) = ["b", "a"] := by
      decide +kernel
    refine (List.perm_ext_iff_of_nodup hdistinct (by decide)).mpr fun id => ?_
    rw [hids, ← Inventory.mem_ids_after]
    change id ∈ ((Inventory.empty.after insertions).table .authorities).map (·.id) ↔ _
    rw [htable]
    simp [or_comm]

/-- An authority is not handed out in batches of the greatest size that a word can say. -/
theorem authority_lost_without_room : ¬ ∃ batches : List (List Row),
    (Store.mk (Inventory.empty.after [.ofAuthority "a" (.int 1)]) .empty).corpusCursor .authorities
      (Word.unsignedEnd - 1) = batches.map .rows := by
  rintro ⟨batches, hcursor⟩
  have hgone : (Store.mk (Inventory.empty.after [.ofAuthority "a" (.int 1)]) .empty).corpusCursor .authorities
      (Word.unsignedEnd - 1) = [.failed .readerGone] := by
    rw [Store.corpusCursor, if_pos (by decide)]
    exact pullsOf_of_no_room (by decide) _
  obtain ⟨batch, -, hbatch⟩ := List.mem_map.mp (hcursor ▸ hgone ▸ List.mem_singleton_self _)
  cases hbatch

end InventoryFeed

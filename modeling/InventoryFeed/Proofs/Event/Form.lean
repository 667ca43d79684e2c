import InventoryFeed.Event.Feed
import InventoryFeed.Proofs.Json.Nesting
import InventoryFeed.Proofs.Json.Printed
import InventoryFeed.Proofs.Json.Record

/-!
# Messages read back from their text

The text of a message is the text of a document, without control characters. It is read as the message that was
written, apart from a record that is null, which is read as none.
-/

namespace InventoryFeed

open Json Document

attribute [local simp] List.lookup_cons List.lookup_nil Record.defaulted Record.required Record.field?

/-- The document of texts under their keys. -/
def textsDocument (texts : List (String × String)) : Document :=
  .object (texts.map fun entry => (entry.1, .text entry.2))

theorem depth_textsDocument (texts : List (String × String)) : (textsDocument texts).depth = 1 := by
  have hmembers : membersDepth (texts.map fun entry => (entry.1, Document.text entry.2)) = 0 := by
    induction texts with
    | nil => rfl
    | cons entry rest ih =>
      rw [List.map_cons, membersDepth, ih]
      rfl
  rw [textsDocument, depth, hmembers]

/-- Texts whose keys ascend are read as they were written. -/
theorem textMap?_tree (room : Nat) {texts : List (String × String)}
    (h : (texts.map Prod.fst).Pairwise (· < ·)) :
    (textsDocument texts).tree.textMap? (room + 1) = some texts := by
  have htexts : (texts.map fun entry => (entry.1, (text entry.2).tree)).mapM
      (fun (member : String × Tree) => member.2.text?.map fun value => (member.1, value)) =
        some texts := by
    clear h
    induction texts with
    | nil => rfl
    | cons entry rest ih =>
      rw [List.map_cons, List.mapM_cons, ih]
      dsimp only
      rw [text?_tree]
      rfl
  have hkeys : meantKeys (memberTrees (texts.map fun entry => (entry.1, text entry.2))) =
      some (texts.map fun entry => (entry.1, (text entry.2).tree)) := by
    rw [meantKeys_memberTrees, List.map_map]
    rfl
  rw [textsDocument, Document.tree, Tree.textMap?, if_neg (Nat.succ_ne_zero room), hkeys]
  simp only [bind, Option.bind_some, htexts, Keyed.ofList_of_ascending h]
  rfl

namespace EventPayload

/-- The document of an event's body. -/
def document (p : EventPayload) : Document :=
  .object ([("id", .text p.id), ("type", .text p.eventType), ("ts", .int p.ts)] ++
    (p.record.map fun doc => ("new", doc)).toList)

theorem write_document (p : EventPayload) : EventMessage.writePayload p = p.document.write := by
  rcases p with ⟨id, eventType, ts, _ | doc⟩
  · exact writeRecord_eq [("id", .text id), ("type", .text eventType), ("ts", .int ts)]
  · exact writeRecord_eq
      [("id", .text id), ("type", .text eventType), ("ts", .int ts), ("new", doc)]

theorem depth_document (p : EventPayload) :
    p.document.depth = (p.record.map Document.depth).getD 0 + 1 := by
  rcases p with ⟨id, eventType, ts, _ | doc⟩ <;> simp [document, depth, membersDepth]

/-- A body is read as it was written, without a record that is null. -/
theorem ofTree?_tree {p : EventPayload} (hts : p.ts < Word.unsignedEnd)
    (hexact : ∀ doc ∈ p.record, doc.Exact) (hproper : ∀ doc ∈ p.record, doc.Proper) {room : Nat}
    (h : p.document.depth ≤ room) :
    EventMessage.payloadOfTree? room p.document.tree = some p.withoutNull := by
  rw [depth_document] at h
  obtain ⟨room, rfl⟩ := Nat.exists_eq_add_of_le' (Nat.one_le_of_lt h)
  rcases p with ⟨id, eventType, ts, _ | doc⟩
  · have hkeys : ([("id", text id), ("type", text eventType), ("ts", int ts)].map Prod.fst).Nodup := by
      simp
    simp [EventMessage.payloadOfTree?, document, record?_tree _ room hkeys, count?_tree hts, withoutNull]
  · have hkeys : ([("id", text id), ("type", text eventType), ("ts", int ts), ("new", doc)].map
        Prod.fst).Nodup := by simp
    have hdepth : doc.depth ≤ room := Nat.le_of_succ_le_succ h
    obtain ⟨read, hread, hsame⟩ :=
      treeOf_tree doc (hproper doc rfl) (hexact doc rfl).finite room hdepth
    obtain rfl := hsame (hexact doc rfl)
    by_cases hnull : read = .null
    · subst hnull
      simp [EventMessage.payloadOfTree?, document, record?_tree _ room hkeys, count?_tree hts, withoutNull]
    · simp [EventMessage.payloadOfTree?, document, record?_tree _ room hkeys, count?_tree hts, withoutNull,
        nullable?_tree _ hnull, hread, hnull]

end EventPayload

namespace EventMessage

/-- The document of a message. -/
def document (m : EventMessage) : Document :=
  .object [
    ("topic", .text m.topic),
    ("key", .text m.key),
    ("resourceName", .text m.resource.name),
    ("headers", textsDocument m.headers),
    ("payload", m.payload.document)]

theorem write_document (m : EventMessage) : m.write = m.document.write := by
  have hheaders : (textsDocument m.headers).write =
      writeRecord (m.headers.map fun header => (header.1, writeString header.2)) := by
    rw [textsDocument, ← writeRecord_eq, List.map_map]
    rfl
  rw [write, m.payload.write_document, document, ← writeRecord_eq]
  simp only [List.map_cons, List.map_nil, hheaders]
  rfl

theorem compact_document (m : EventMessage) : m.compact = m.document.compact :=
  congrArg String.ofList m.write_document

theorem depth_document (m : EventMessage) : m.document.depth = m.payload.document.depth + 1 := by
  simp [document, depth, membersDepth, depth_textsDocument, m.payload.depth_document]

theorem nesting_compact (m : EventMessage) : nesting m.compact = m.document.depth := by
  rw [compact_document, Json.nesting_compact]

/-- The text of a message has no newline in it, whatever characters are in its strings. -/
theorem newline_not_mem_write (m : EventMessage) : '\n' ∉ m.write :=
  m.write_document ▸ (printed_write m.document).newline_not_mem

/-- A message is read as it was written where there is room enough. -/
theorem ofTree?_tree {m : EventMessage} (hheaders : (m.headers.map Prod.fst).Pairwise (· < ·))
    (hts : m.payload.ts < Word.unsignedEnd) (hexact : ∀ doc ∈ m.payload.record, doc.Exact)
    (hproper : ∀ doc ∈ m.payload.record, doc.Proper) {room : Nat} (h : m.document.depth ≤ room) :
    ofTree? room m.document.tree = some m.withoutNull := by
  rw [depth_document] at h
  obtain ⟨room, rfl⟩ := Nat.exists_eq_add_of_le' (Nat.one_le_of_lt h)
  have hpayload := EventPayload.ofTree?_tree hts hexact hproper (Nat.le_of_succ_le_succ h)
  rw [m.payload.depth_document] at h
  obtain ⟨room, rfl⟩ := Nat.exists_eq_add_of_le' (Nat.one_le_of_lt (Nat.le_of_succ_le_succ h))
  have hkeys : ([("topic", text m.topic), ("key", text m.key), ("resourceName", text m.resource.name),
      ("headers", textsDocument m.headers), ("payload", m.payload.document)].map Prod.fst).Nodup := by simp
  have hresource : ([Resource.instances, .authorities].find? fun choice =>
      choice.name = m.resource.name) = some m.resource := by
    cases m.resource <;> rfl
  simp [ofTree?, document, record?_tree _ (room + 1) hkeys, oneOf?_tree, hresource, hpayload,
    textMap?_tree room hheaders, withoutNull]

/-- The text of a message whose headers ascend is read back, if its record is without doubles and not nested
too deep. -/
theorem read_compact {m : EventMessage} (hheaders : (m.headers.map Prod.fst).Pairwise (· < ·))
    (hts : m.payload.ts < Word.unsignedEnd) (hexact : ∀ doc ∈ m.payload.record, doc.Exact)
    (hproper : ∀ doc ∈ m.payload.record, doc.Proper) (hnesting : nesting m.compact ≤ maxNesting) :
    read m.compact = some m.withoutNull := by
  rw [nesting_compact] at hnesting
  rw [read, compact_document, read_tree, Option.bind_some,
    ofTree?_tree hheaders hts hexact hproper hnesting]

end EventMessage

end InventoryFeed

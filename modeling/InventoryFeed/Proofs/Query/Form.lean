import InventoryFeed.Proofs.Json.Nesting
import InventoryFeed.Proofs.Json.Record
import InventoryFeed.Query.Form

/-!
# Queries read back from their text

The text of a predicate and of a request is the text of a document. Its tree is read as the query that was
written, if there is room for the arrays and objects that stand inside one another and no literal is a double.
-/

namespace InventoryFeed

open Json Document

-- The fields of a record are known as soon as their names are compared with its keys.
attribute [local simp] List.lookup_cons List.lookup_nil Record.defaulted Record.required Record.field?

namespace FieldRef

/-- The document of a field reference. -/
def document (field : FieldRef) : Document :=
  .object ((field.qualifier.map fun q => ("qualifier", .text q)).toList ++ [("path", .text field.path)])

theorem write_document (field : FieldRef) : field.write = field.document.write := by
  rcases field with ⟨_ | q, path⟩
  · exact writeRecord_eq [("path", .text path)]
  · exact writeRecord_eq [("qualifier", .text q), ("path", .text path)]

theorem depth_document (field : FieldRef) : field.document.depth = 1 := by
  rcases field with ⟨_ | q, path⟩ <;> rfl

theorem ofTree?_tree (room : Nat) (field : FieldRef) :
    ofTree? (room + 1) field.document.tree = some field := by
  rcases field with ⟨_ | q, path⟩
  · have hkeys : ([("path", text path)].map Prod.fst).Nodup := by simp
    simp [ofTree?, document, record?_tree _ room hkeys]
  · have hkeys : ([("qualifier", text q), ("path", text path)].map Prod.fst).Nodup := by simp
    simp [ofTree?, document, record?_tree _ room hkeys, nullable?_tree]

end FieldRef

namespace Literal

/-- The document of a literal. -/
def document : Literal → Document
  | .bool b => .bool b
  | .int n => .int n.toInt
  | .real x => .real x
  | .text s => .text s

theorem write_document (value : Literal) : value.write = value.document.write := by
  cases value with
  | bool b => exact writeBool_eq b
  | _ => rfl

theorem depth_document (value : Literal) : value.document.depth = 0 := by
  cases value <;> rfl

/-- A literal keeps its kind. -/
theorem ofTree?_tree {value : Literal} (h : ∀ x, value ≠ .real x) :
    ofTree? value.document.tree = some value := by
  cases value with
  | bool b => rfl
  | int n =>
    have hlow : -(Word.signedEnd : Int) ≤ n.toInt := Int64.le_toInt n
    have hhigh : n.toInt < Word.signedEnd := Int64.toInt_lt n
    have hread : (numeralOf n.toInt).toNumber? = some (.int n.toInt) := toNumber_numeralOf hlow (by
      simp only [Word.signedEnd, Word.unsignedEnd] at hhigh ⊢
      omega)
    rw [document, tree, ofTree?, hread]
    dsimp only
    rw [if_pos hhigh, Int64.ofInt_toInt]
  | real x => exact absurd rfl (h x)
  | text s => simp [document, tree, ofTree?, unescape_escapeAll]

end Literal

namespace Predicate

mutual

/-- The document of a predicate. -/
def document : Predicate → Document
  | all => .text "all"
  | compare field op value => .object [("compare", .object
      [("field", field.document), ("op", .text op.name), ("value", value.document)])]
  | conj children => .object [("and", .array (documents children))]
  | disj children => .object [("or", .array (documents children))]
  | neg child => .object [("not", child.document)]

/-- The documents of several predicates. -/
def documents : List Predicate → List Document
  | [] => []
  | child :: rest => child.document :: documents rest

end

mutual

/-- Whether no comparison is with a double. -/
def Exact : Predicate → Prop
  | all => True
  | compare _ _ value => ∀ x, value ≠ .real x
  | conj children => ExactAll children
  | disj children => ExactAll children
  | neg child => child.Exact

/-- Whether none of several predicates compares with a double. -/
def ExactAll : List Predicate → Prop
  | [] => True
  | child :: rest => child.Exact ∧ ExactAll rest

end

mutual

theorem write_document (p : Predicate) : p.write = p.document.write := by
  match p with
  | all => rfl
  | compare field op value =>
    rw [write, field.write_document, value.write_document]
    exact (congrArg (fun cs => writeRecord [("compare", cs)]) (writeRecord_eq
      [("field", field.document), ("op", .text op.name), ("value", value.document)])).trans
      (writeRecord_eq [("compare", _)])
  | conj children =>
    rw [write, writeEach_documents, writeArray_eq]
    exact writeRecord_eq [("and", .array (documents children))]
  | disj children =>
    rw [write, writeEach_documents, writeArray_eq]
    exact writeRecord_eq [("or", .array (documents children))]
  | neg child =>
    rw [write, write_document child]
    exact writeRecord_eq [("not", child.document)]

theorem writeEach_documents (children : List Predicate) :
    writeEach children = (documents children).map Document.write := by
  match children with
  | [] => rfl
  | child :: rest => rw [writeEach, write_document child, writeEach_documents rest, documents, List.map_cons]

end

theorem ofTree?_compare (room : Nat) (d : Document) :
    ofTree? (room + 1) (object [("compare", d)]).tree = compareOfTree? room d.tree := by
  simp [Document.tree, memberTrees, ofTree?, unescape_escapeAll]

theorem ofTree?_conj (room : Nat) (d : Document) :
    ofTree? (room + 1) (object [("and", d)]).tree = (childrenOfTree? room d.tree).map .conj := by
  simp [Document.tree, memberTrees, ofTree?, unescape_escapeAll]

theorem ofTree?_disj (room : Nat) (d : Document) :
    ofTree? (room + 1) (object [("or", d)]).tree = (childrenOfTree? room d.tree).map .disj := by
  simp [Document.tree, memberTrees, ofTree?, unescape_escapeAll]

theorem ofTree?_neg (room : Nat) (d : Document) :
    ofTree? (room + 1) (object [("not", d)]).tree = (ofTree? room d.tree).map .neg := by
  simp [Document.tree, memberTrees, ofTree?, unescape_escapeAll]

theorem compareOfTree?_tree (room : Nat) (field : FieldRef) (op : CompareOp) {value : Literal}
    (h : ∀ x, value ≠ .real x) :
    compareOfTree? (room + 2) (object [("field", field.document), ("op", text op.name),
      ("value", value.document)]).tree = some (.compare field op value) := by
  have hkeys : ([("field", field.document), ("op", text op.name), ("value", value.document)].map
      Prod.fst).Nodup := by simp
  have hop : (CompareOp.all.find? fun choice => choice.name = op.name) = some op := by
    cases op <;> rfl
  simp [compareOfTree?, record?_tree _ (room + 1) hkeys, FieldRef.ofTree?_tree, oneOf?_tree, hop,
    Literal.ofTree?_tree h]

theorem depth_compare (field : FieldRef) (op : CompareOp) (value : Literal) :
    (compare field op value).document.depth = 3 := by
  simp [document, depth, membersDepth, field.depth_document, value.depth_document]

theorem depth_conj (children : List Predicate) :
    (conj children).document.depth = itemsDepth (documents children) + 2 := by
  simp [document, depth, membersDepth]

theorem depth_disj (children : List Predicate) :
    (disj children).document.depth = itemsDepth (documents children) + 2 := by
  simp [document, depth, membersDepth]

theorem depth_neg (child : Predicate) : (neg child).document.depth = child.document.depth + 1 := by
  simp [document, depth, membersDepth]

mutual

/-- A predicate is read as it was written where there is room enough. -/
theorem ofTree?_tree {p : Predicate} (hexact : p.Exact) {room : Nat} (h : p.document.depth ≤ room) :
    ofTree? room p.document.tree = some p := by
  match p, hexact with
  | all, _ => simp [document, Document.tree, ofTree?, unescape_escapeAll]
  | compare field op value, hexact =>
    rw [depth_compare] at h
    obtain ⟨room, rfl⟩ := Nat.exists_eq_add_of_le' h
    rw [document, ofTree?_compare, compareOfTree?_tree room field op hexact]
  | conj children, hexact =>
    rw [depth_conj] at h
    obtain ⟨room, rfl⟩ := Nat.exists_eq_add_of_le' (Nat.le_of_add_left_le h)
    have hchildren := listOfTrees?_trees hexact (Nat.le_of_add_le_add_right h)
    rw [document, ofTree?_conj, Document.tree, childrenOfTree?, if_neg (Nat.succ_ne_zero room)]
    exact congrArg (Option.map conj) hchildren
  | disj children, hexact =>
    rw [depth_disj] at h
    obtain ⟨room, rfl⟩ := Nat.exists_eq_add_of_le' (Nat.le_of_add_left_le h)
    have hchildren := listOfTrees?_trees hexact (Nat.le_of_add_le_add_right h)
    rw [document, ofTree?_disj, Document.tree, childrenOfTree?, if_neg (Nat.succ_ne_zero room)]
    exact congrArg (Option.map disj) hchildren
  | neg child, hexact =>
    rw [depth_neg] at h
    obtain ⟨room, rfl⟩ := Nat.exists_eq_add_of_le' (Nat.one_le_of_lt h)
    have hchild : child.Exact := hexact
    rw [document, ofTree?_neg, ofTree?_tree hchild (Nat.le_of_succ_le_succ h), Option.map_some]

theorem listOfTrees?_trees {children : List Predicate} (hexact : ExactAll children) {room : Nat}
    (h : itemsDepth (documents children) ≤ room) :
    listOfTrees? room (trees (documents children)) = some children := by
  match children, hexact with
  | [], _ => rw [documents, trees, listOfTrees?]
  | child :: rest, hexact =>
    obtain ⟨hfirst, hrest⟩ := Nat.max_le.mp h
    rw [documents, trees, listOfTrees?, ofTree?_tree hexact.1 hfirst, listOfTrees?_trees hexact.2 hrest]
    rfl

end

theorem compact_document (p : Predicate) : p.compact = p.document.compact :=
  congrArg String.ofList p.write_document

theorem nesting_compact (p : Predicate) : nesting p.compact = p.document.depth := by
  rw [compact_document, Json.nesting_compact]

/-- The text of a predicate that is not nested too deep is read back. -/
theorem read_written {p : Predicate} (hexact : p.Exact) (hnesting : nesting p.compact ≤ maxNesting) :
    read p.compact = some p := by
  rw [nesting_compact] at hnesting
  rw [read, compact_document, read_tree, Option.bind_some, ofTree?_tree hexact hnesting]

end Predicate

namespace SortKey

/-- The document of a sort key. -/
def document (key : SortKey) : Document :=
  .object [("field", key.field.document), ("descending", .bool key.descending)]

theorem write_document (key : SortKey) : key.write = key.document.write := by
  rw [write, key.field.write_document, writeBool_eq]
  exact writeRecord_eq [("field", key.field.document), ("descending", .bool key.descending)]

theorem depth_document (key : SortKey) : key.document.depth = 2 := by
  simp [document, depth, membersDepth, key.field.depth_document]

theorem ofTree?_tree (room : Nat) (key : SortKey) :
    ofTree? (room + 2) key.document.tree = some key := by
  have hkeys : ([("field", key.field.document), ("descending", Document.bool key.descending)].map
      Prod.fst).Nodup := by simp
  simp [ofTree?, document, record?_tree _ (room + 1) hkeys, FieldRef.ofTree?_tree]

/-- So are several sort keys. -/
theorem mapM_trees {keys : List SortKey} {room : Nat} (h : itemsDepth (keys.map document) ≤ room) :
    (trees (keys.map document)).mapM (ofTree? room) = some keys := by
  induction keys with
  | nil => rfl
  | cons key rest ih =>
    obtain ⟨hfirst, hrest⟩ := Nat.max_le.mp h
    rw [depth_document] at hfirst
    obtain ⟨room, rfl⟩ := Nat.exists_eq_add_of_le' hfirst
    rw [List.map_cons, trees, List.mapM_cons, ofTree?_tree, ih hrest]
    rfl

end SortKey

namespace Request

/-- The document of a limit. -/
def limitDocument : Option UInt64 → Document
  | some n => .int n.toNat
  | none => .null

theorem depth_limitDocument (limit : Option UInt64) : (limitDocument limit).depth = 0 := by
  cases limit <;> rfl

/-- A limit that is not there stays so. -/
theorem nullable?_limitDocument (limit : Option UInt64) :
    nullable? Tree.count? (limitDocument limit).tree = some (limit.map UInt64.toNat) := by
  cases limit with
  | none => rfl
  | some n =>
    have hread : (int n.toNat).tree.count? = some n.toNat := count?_tree (UInt64.toNat_lt n)
    exact congrArg (Option.map some) hread

/-- The document of a request. -/
def document (r : Request) : Document :=
  .object [
    ("predicate", r.predicate.document),
    ("sort", .array (r.sort.map SortKey.document)),
    ("limit", limitDocument r.limit),
    ("offset", .int r.offset.toNat)]

theorem write_document (r : Request) : r.write = r.document.write := by
  have hsort : r.sort.map SortKey.write = (r.sort.map SortKey.document).map Document.write := by
    rw [List.map_map]
    exact List.map_congr_left fun key _ => key.write_document
  rw [write, r.predicate.write_document, hsort, writeArray_eq, document, ← writeRecord_eq]
  cases r.limit <;> rfl

theorem depth_document (r : Request) : r.document.depth =
    max r.predicate.document.depth (itemsDepth (r.sort.map SortKey.document) + 1) + 1 := by
  simp [document, depth, membersDepth, depth_limitDocument]

/-- A request is read as it was written where there is room enough. -/
theorem ofTree?_tree {r : Request} (hexact : r.predicate.Exact) {room : Nat}
    (h : r.document.depth ≤ room) : ofTree? room r.document.tree = some r := by
  rw [depth_document] at h
  obtain ⟨room, rfl⟩ := Nat.exists_eq_add_of_le' (Nat.one_le_of_lt h)
  obtain ⟨hpredicate, hitems⟩ := Nat.max_le.mp (Nat.le_of_succ_le_succ h)
  obtain ⟨room, rfl⟩ := Nat.exists_eq_add_of_le' (Nat.one_le_of_lt hitems)
  have hkeys : ([("predicate", r.predicate.document), ("sort", array (r.sort.map SortKey.document)),
      ("limit", limitDocument r.limit), ("offset", int r.offset.toNat)].map Prod.fst).Nodup := by simp
  have hsort : ((array (r.sort.map SortKey.document)).tree.items? (room + 1)).bind
      (List.mapM (SortKey.ofTree? room)) = some r.sort :=
    SortKey.mapM_trees (Nat.le_of_succ_le_succ hitems)
  have hoffset : (int r.offset.toNat).tree.count? = some r.offset.toNat :=
    count?_tree (UInt64.toNat_lt r.offset)
  simp [ofTree?, document, record?_tree _ (room + 1) hkeys, Predicate.ofTree?_tree hexact hpredicate, hsort,
    nullable?_limitDocument, hoffset, Function.comp_def]

theorem compact_document (r : Request) : r.compact = r.document.compact :=
  congrArg String.ofList r.write_document

theorem nesting_compact (r : Request) : nesting r.compact = r.document.depth := by
  rw [compact_document, Json.nesting_compact]

/-- The text of a request that is not nested too deep is read back. -/
theorem read_written {r : Request} (hexact : r.predicate.Exact)
    (hnesting : nesting r.compact ≤ maxNesting) : read r.compact = some r := by
  rw [nesting_compact] at hnesting
  rw [read, compact_document, read_tree, Option.bind_some, ofTree?_tree hexact hnesting]

end Request

end InventoryFeed

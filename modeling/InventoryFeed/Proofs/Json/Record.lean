import InventoryFeed.Json.Record
import InventoryFeed.Proofs.Json.RoundTrip
import Mathlib.Data.List.Nodup

/-!
# Records read back from their text

What is written as a record or an array is the text of a document. If no key is repeated, each field of the
record that is read is what stands under its name, whatever the order of the names.
-/

namespace InventoryFeed.Json

open Document

/-! ## What is written -/

theorem writeMembers_eq_intercalate (members : List (String × Document)) :
    writeMembers members =
      [','].intercalate (members.map fun member => writeString member.1 ++ ':' :: member.2.write) := by
  induction members with
  | nil => rfl
  | cons member rest ih =>
    cases rest with
    | nil => simp [writeMembers]
    | cons next rest =>
      rw [writeMembers, ih]
      simp [List.intercalate]

/-- A written record is the text of an object. -/
theorem writeRecord_eq (members : List (String × Document)) :
    writeRecord (members.map fun member => (member.1, member.2.write)) = (object members).write := by
  rw [writeRecord, write, writeMembers_eq_intercalate, List.map_map]
  rfl

/-- A written array is the text of an array. -/
theorem writeArray_eq (items : List Document) :
    writeArray (items.map Document.write) = (array items).write := by
  rw [writeArray, write, writeItems_eq_intercalate]

theorem writeBool_eq (b : Bool) : writeBool b = (Document.bool b).write := by
  cases b <;> rfl

/-! ## What is read -/

@[simp] theorem text?_tree (s : String) : (text s).tree.text? = some s := by
  rw [tree, Tree.text?, unescape_escapeAll, Option.map_some, String.ofList_toList]

@[simp] theorem bool?_tree (b : Bool) : (Document.bool b).tree.bool? = some b := rfl

@[simp] theorem nullable?_null {α : Type} (read : Tree → Option α) :
    nullable? read Document.null.tree = some none := rfl

/-- Whatever is not null is read. -/
theorem nullable?_tree {α : Type} (read : Tree → Option α) {d : Document} (h : d ≠ .null) :
    nullable? read d.tree = (read d.tree).map some := by
  cases d with
  | null => exact absurd rfl h
  | _ => rfl

/-- A count of 64 bits is read as it was written. -/
theorem count?_tree {n : Nat} (h : n < Word.unsignedEnd) : (int n).tree.count? = some n := by
  have hread : (numeralOf n).toNumber? = some (.int n) := toNumber_numeralOf (by omega) (by omega)
  rw [tree, Tree.count?, hread]
  exact if_pos (Int.natCast_nonneg n)

/-- A name is looked up among the names of the choices. -/
theorem oneOf?_tree {α : Type} (room : Nat) (choices : List α) (name : α → String) (s : String) :
    (text s).tree.oneOf? room choices name = choices.find? fun choice => name choice = s := by
  rw [tree, Tree.oneOf?, Tree.variant?, unescape_escapeAll, Option.map_some, String.ofList_toList]

/-- The keys of an object are meant as they were before they were written. -/
theorem meantKeys_memberTrees (members : List (String × Document)) :
    meantKeys (memberTrees members) = some (members.map fun member => (member.1, member.2.tree)) := by
  induction members with
  | nil => rfl
  | cons member rest ih =>
    obtain ⟨key, value⟩ := member
    have hfirst : (unescape (escapeAll key.toList)).map (fun cs => (String.ofList cs, value.tree)) =
        some (key, value.tree) := by
      rw [unescape_escapeAll, Option.map_some, String.ofList_toList]
    rw [meantKeys] at ih
    rw [meantKeys, memberTrees, List.mapM_cons, ih]
    dsimp only
    rw [hfirst]
    rfl

/-- The first value under a key. -/
theorem head?_valuesOf (key : String) (members : List (String × Document)) :
    (valuesOf key (members.map fun member => (member.1, member.2.tree))).head? =
      (members.lookup key).map tree := by
  induction members with
  | nil => rfl
  | cons member rest ih =>
    rw [valuesOf] at ih ⊢
    obtain ⟨other, value⟩ := member
    by_cases hkey : other = key
    · subst hkey
      simp
    · have hother : (key == other) = false := beq_false_of_ne (Ne.symm hkey)
      simp only [List.map_cons, List.filter_cons, hkey, decide_false, Bool.false_eq_true, if_false, ih,
        List.lookup_cons, hother]

/-- There is one at most if no key is repeated. -/
theorem length_valuesOf_le {members : List (String × Tree)} (h : (members.map Prod.fst).Nodup)
    (key : String) : (valuesOf key members).length ≤ 1 := by
  have hcount : (valuesOf key members).length = (members.map Prod.fst).count key := by
    rw [valuesOf, List.length_map, ← List.countP_eq_length_filter, List.count, List.countP_map]
    rfl
  exact hcount ▸ List.nodup_iff_count_le_one.mp h key

/-- Of an object in which no key is repeated, the fields of a record are the values under their names. -/
theorem record?_tree (names : List String) (room : Nat) {members : List (String × Document)}
    (h : (members.map Prod.fst).Nodup) :
    (object members).tree.record? names (room + 1) =
      some ⟨false, names.map fun name => (members.lookup name).map tree⟩ := by
  have hkeys : ((members.map fun member => (member.1, member.2.tree)).map Prod.fst).Nodup := by
    rw [List.map_map]
    exact h
  have hsingle : ((names.map fun name => valuesOf name (members.map fun member =>
      (member.1, member.2.tree))).any fun values => 1 < values.length) = false := by
    rw [List.any_eq_false, List.forall_mem_map]
    intro name _
    have hle := length_valuesOf_le hkeys name
    simpa using hle
  rw [tree, Tree.record?, if_neg (Nat.succ_ne_zero room)]
  simp only [meantKeys_memberTrees, bind, Option.bind_some, hsingle, Bool.false_eq_true, if_false,
    List.map_map]
  simp only [Function.comp_def, head?_valuesOf]

end InventoryFeed.Json

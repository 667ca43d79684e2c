import InventoryFeed.Document.Shape
import InventoryFeed.Proofs.Json.Finite
import InventoryFeed.Proofs.Json.Scalar

/-!
# A document read back from its text

The compact text of a document is JSON. It is read as a document, as long as the document is as one is that was
read and is not nested too deep, and if there are no doubles in it, as that document.
-/

namespace InventoryFeed

namespace Keyed

variable {α : Type}

/-- A key behind all others goes to the end. -/
theorem put_of_behind {key : String} {value : α} {entries : List (String × α)}
    (h : ∀ entry ∈ entries, entry.1 < key) : put key value entries = entries ++ [(key, value)] := by
  induction entries with
  | nil => rfl
  | cons entry rest ih =>
    have hbefore : entry.1 < key := h entry (.head _)
    have hnot : ¬key < entry.1 := String.lt_asymm hbefore
    have hne : key ≠ entry.1 := fun heq => String.lt_irrefl key (heq ▸ hbefore)
    rw [put, if_neg hnot, if_neg hne, ih fun other hother => h other (.tail _ hother)]
    rfl

/-- Entries whose keys ascend stay as they are. -/
theorem ofList_of_ascending {entries : List (String × α)}
    (h : (entries.map Prod.fst).Pairwise (· < ·)) : ofList entries = entries := by
  suffices hfrom : ∀ sorted, ((sorted ++ entries).map Prod.fst).Pairwise (· < ·) →
      entries.foldl (fun sorted entry => put entry.1 entry.2 sorted) sorted = sorted ++ entries from
    hfrom [] h
  clear h
  intro sorted hsorted
  induction entries generalizing sorted with
  | nil => simp
  | cons entry rest ih =>
    have hbehind : ∀ other ∈ sorted, other.1 < entry.1 := by
      rw [List.map_append, List.pairwise_append] at hsorted
      exact fun other hother => hsorted.2.2 other.1 (List.mem_map_of_mem hother) entry.1 (.head _)
    rw [List.foldl_cons, put_of_behind hbehind, ih, List.append_assoc, List.singleton_append]
    rwa [List.append_assoc, List.singleton_append]

end Keyed

namespace Document

open Json

theorem exactItems_iff {items : List Document} :
    ExactItems items ↔ ∀ item ∈ items, item.Exact := by
  induction items with
  | nil => simp [ExactItems]
  | cons item rest ih => rw [ExactItems, ih, List.forall_mem_cons]

theorem properItems_iff {items : List Document} :
    ProperItems items ↔ ∀ item ∈ items, item.Proper := by
  induction items with
  | nil => simp [ProperItems]
  | cons item rest ih => rw [ProperItems, ih, List.forall_mem_cons]

theorem itemsDepth_le_iff {items : List Document} {bound : Nat} :
    itemsDepth items ≤ bound ↔ ∀ item ∈ items, item.depth ≤ bound := by
  induction items with
  | nil => simp [itemsDepth]
  | cons item rest ih => rw [itemsDepth, Nat.max_le, ih, List.forall_mem_cons]

theorem skipBlanks_cons {c : Char} (rest : List Char) (h : isBlank c = false) :
    skipBlanks (c :: rest) = c :: rest := by
  rw [skipBlanks, List.dropWhile_cons, h]
  rfl

theorem write_text (s : String) : (text s).write = '"' :: (escapeAll s.toList ++ ['"']) := rfl

theorem write_array (items : List Document) : (array items).write = '[' :: (writeItems items ++ [']']) :=
  rfl

theorem write_object (members : List (String × Document)) :
    (object members).write = '{' :: (writeMembers members ++ ['}']) := rfl

theorem writeItems_cons (item : Document) (rest : List Document) :
    writeItems (item :: rest) = item.write ++ if rest.isEmpty then [] else ',' :: writeItems rest := by
  cases rest with
  | nil => exact (List.append_nil _).symm
  | cons next rest => rfl

theorem writeMembers_cons (key : String) (value : Document) (rest : List (String × Document)) :
    writeMembers ((key, value) :: rest) = writeString key ++ ':' :: value.write ++
      if rest.isEmpty then [] else ',' :: writeMembers rest := by
  cases rest with
  | nil => exact (List.append_nil _).symm
  | cons next rest => rfl

theorem writeItems_eq_intercalate (items : List Document) :
    writeItems items = [','].intercalate (items.map write) := by
  induction items with
  | nil => rfl
  | cons item rest ih =>
    cases rest with
    | nil => simp [writeItems]
    | cons next rest =>
      rw [writeItems, ih]
      simp [List.intercalate]

/-- A character with which a number begins. -/
def opensNumber (c : Char) : Bool := isDigit c || c == '-'

theorem ne_of_opensNumber {c : Char} (h : opensNumber c = true) (other : Char)
    (hother : opensNumber other = false) : c ≠ other := by
  rintro rfl
  simp [h] at hother

theorem isBlank_of_opensNumber {c : Char} (h : opensNumber c = true) : isBlank c = false := by
  simp [isBlank, ne_of_opensNumber h ' ' rfl, ne_of_opensNumber h '\n' rfl,
    ne_of_opensNumber h '\t' rfl, ne_of_opensNumber h '\r' rfl]

theorem readValue_number (fuel : Nat) {c : Char} (more : List Char) (h : opensNumber c = true) :
    readValue (fuel + 1) (c :: more) =
      (readNumeral (c :: more)).map fun (value, rest) => (.number value, rest) := by
  have hn := ne_of_opensNumber h 'n' rfl
  have ht := ne_of_opensNumber h 't' rfl
  have hf := ne_of_opensNumber h 'f' rfl
  have hquote := ne_of_opensNumber h '"' rfl
  have hbracket := ne_of_opensNumber h '[' rfl
  have hbrace := ne_of_opensNumber h '\x7b' rfl
  rw [readValue, skipBlanks_cons more (isBlank_of_opensNumber h)]
  split <;> simp_all

theorem readValue_array (fuel : Nat) {c : Char} (more : List Char) (hblank : isBlank c = false)
    (hc : c ≠ ']') :
    readValue (fuel + 1) ('[' :: c :: more) =
      (readItems fuel (c :: more)).map fun (items, rest) => (.array items, rest) := by
  rw [readValue, skipBlanks_cons (c :: more) rfl]
  split
  case h_5 rest hbracket =>
    obtain ⟨-, rfl⟩ := List.cons.inj hbracket
    rw [skipBlanks_cons more hblank]
    split
    · rename_i hclose
      exact absurd (List.cons.inj hclose).1 hc
    · rfl
  all_goals simp_all

theorem readValue_object (fuel : Nat) (more : List Char) :
    readValue (fuel + 1) ('{' :: '"' :: more) =
      (readMembers fuel ('"' :: more)).map fun (members, rest) => (.object members, rest) := rfl

theorem opensNumber_compact {n : Numeral} (h : n.WellFormed) :
    ∃ c rest, n.compact = c :: rest ∧ opensNumber c = true := by
  obtain ⟨c, more, hwhole⟩ := List.exists_cons_of_ne_nil h.some_digit
  have hc : isDigit c = true := h.whole c (by simp [hwhole])
  rw [Numeral.compact, hwhole]
  split
  · exact ⟨_, _, rfl, rfl⟩
  · exact ⟨_, _, rfl, by simp [opensNumber, hc]⟩

/-- The first character of a document is not a blank and closes nothing. -/
theorem write_head (d : Document) :
    ∃ c rest, d.write = c :: rest ∧ isBlank c = false ∧ c ≠ ']' := by
  have hnumber : ∀ {n : Numeral}, n.WellFormed →
      ∃ c rest, n.compact = c :: rest ∧ isBlank c = false ∧ c ≠ ']' := by
    intro n hn
    obtain ⟨c, rest, hwrite, hc⟩ := opensNumber_compact hn
    exact ⟨c, rest, hwrite, isBlank_of_opensNumber hc, ne_of_opensNumber hc _ rfl⟩
  cases d with
  | null => exact ⟨_, _, rfl, rfl, by decide⟩
  | bool value => cases value <;> exact ⟨_, _, rfl, rfl, by decide⟩
  | int n =>
    rw [show (int n).write = writeInt n from rfl, ← compact_numeralOf]
    exact hnumber (wellFormed_numeralOf n)
  | real x =>
    rw [show (real x).write = writeReal x from rfl, writeReal_eq]
    exact hnumber (wellFormed_numeralOfDecimal _ _)
  | text s => exact ⟨_, _, rfl, rfl, by decide⟩
  | array items => exact ⟨_, _, rfl, rfl, by decide⟩
  | object members => exact ⟨_, _, rfl, rfl, by decide⟩

-- From an array to its items the fuel goes down by one, and by one more to the first item; the array's text
-- is longer than its items' by two brackets, and each item but the last has a comma behind it. So twice the
-- length of the text is enough.

/-- The text of a document is read as a tree, whatever comes after it. -/
def ReadsAs (d : Document) (tree : Tree) : Prop :=
  ∀ fuel rest, 2 * d.write.length ≤ fuel → EndsNumber rest →
    readValue fuel (d.write ++ rest) = some (tree, rest)

/-- The text of items is read as trees up to the bracket after it. -/
def ItemsReadAs (items : List Document) (trees : List Tree) : Prop :=
  ∀ fuel rest, 2 * (writeItems items).length + 1 ≤ fuel →
    readItems fuel (writeItems items ++ ']' :: rest) = some (trees, rest)

/-- The text of members is read as trees under their keys up to the brace after it. -/
def MembersReadAs (members : List (String × Document)) (trees : List (List Char × Tree)) : Prop :=
  ∀ fuel rest, 2 * (writeMembers members).length + 1 ≤ fuel →
    readMembers fuel (writeMembers members ++ '}' :: rest) = some (trees, rest)

/-- A text is not empty, so there is fuel for the value itself. -/
theorem readsAs_of_succ {d : Document} {tree : Tree}
    (h : ∀ fuel rest, 2 * d.write.length ≤ fuel + 1 → EndsNumber rest →
      readValue (fuel + 1) (d.write ++ rest) = some (tree, rest)) : d.ReadsAs tree := by
  intro fuel rest hfuel hrest
  obtain ⟨c, more, hwrite, -⟩ := write_head d
  have hpos : 0 < fuel := by
    rw [hwrite, List.length_cons] at hfuel
    omega
  obtain ⟨fuel, rfl⟩ := Nat.exists_eq_add_of_le' hpos
  exact h fuel rest hfuel hrest

theorem readsAs_number {d : Document} {n : Numeral} (h : n.WellFormed) (hwrite : d.write = n.compact) :
    d.ReadsAs (.number n) := by
  refine readsAs_of_succ fun fuel rest _ hrest => ?_
  obtain ⟨c, more, hcompact, hc⟩ := opensNumber_compact h
  have hread := readNumeral_compact h hrest
  rw [hcompact, List.cons_append] at hread
  rw [hwrite, hcompact, List.cons_append, readValue_number fuel _ hc, hread]
  rfl

theorem readsAs_text (s : String) : (Document.text s).ReadsAs (.string (escapeAll s.toList)) := by
  refine readsAs_of_succ fun fuel rest _ _ => ?_
  have hread := readString_escapeAll s.toList rest
  have hwrite : (Document.text s).write ++ rest = '"' :: (escapeAll s.toList ++ '"' :: rest) := by
    simp [write_text]
  rw [hwrite]
  change (readString (escapeAll s.toList ++ '"' :: rest)).map _ = _
  rw [hread]
  rfl

theorem ItemsReadAs.array {item : Document} {items : List Document} {trees : List Tree}
    (h : ItemsReadAs (item :: items) trees) :
    (Document.array (item :: items)).ReadsAs (.array trees) := by
  refine readsAs_of_succ fun fuel rest hfuel _ => ?_
  -- What follows the bracket neither is skipped nor closes the array at once.
  obtain ⟨c, more, hwrite, hblank, hc⟩ := write_head item
  have hlength : (Document.array (item :: items)).write.length =
      (writeItems (item :: items)).length + 2 := by simp [write_array]
  have hread := h fuel rest (by omega)
  obtain ⟨more', hmore⟩ : ∃ more', writeItems (item :: items) ++ ']' :: rest = c :: more' :=
    ⟨_, by rw [writeItems_cons, hwrite]; rfl⟩
  have hsplit : (Document.array (item :: items)).write ++ rest =
      '[' :: (writeItems (item :: items) ++ ']' :: rest) := by simp [write_array]
  rw [hmore] at hread
  rw [hsplit, hmore, readValue_array fuel _ hblank hc, hread]
  rfl

theorem MembersReadAs.object {key : String} {value : Document} {members : List (String × Document)}
    {trees : List (List Char × Tree)} (h : MembersReadAs ((key, value) :: members) trees) :
    (Document.object ((key, value) :: members)).ReadsAs (.object trees) := by
  refine readsAs_of_succ fun fuel rest hfuel _ => ?_
  have hlength : (Document.object ((key, value) :: members)).write.length =
      (writeMembers ((key, value) :: members)).length + 2 := by simp [write_object]
  have hread := h fuel rest (by omega)
  obtain ⟨more, hmore⟩ : ∃ more, writeMembers ((key, value) :: members) ++ '}' :: rest = '"' :: more :=
    ⟨_, by rw [writeMembers_cons]; rfl⟩
  have hsplit : (Document.object ((key, value) :: members)).write ++ rest =
      '{' :: (writeMembers ((key, value) :: members) ++ '}' :: rest) := by simp [write_object]
  rw [hmore] at hread
  rw [hsplit, hmore, readValue_object, hread]
  rfl

theorem ReadsAs.items {item : Document} {tree : Tree} (h : item.ReadsAs tree) :
    ItemsReadAs [item] [tree] := by
  intro fuel rest hfuel
  change 2 * item.write.length + 1 ≤ fuel at hfuel
  change readItems fuel (item.write ++ ']' :: rest) = _
  obtain ⟨fuel, rfl⟩ := Nat.exists_eq_add_of_le' (show 1 ≤ fuel by omega)
  have hread := h fuel (']' :: rest) (by omega) (endsNumber_cons _ (by decide))
  rw [readItems, hread]
  rfl

theorem ReadsAs.items_cons {item next : Document} {items : List Document} {tree : Tree}
    {trees : List Tree} (h : item.ReadsAs tree) (hmore : ItemsReadAs (next :: items) trees) :
    ItemsReadAs (item :: next :: items) (tree :: trees) := by
  intro fuel rest hfuel
  have hsplit : writeItems (item :: next :: items) ++ ']' :: rest =
      item.write ++ ',' :: (writeItems (next :: items) ++ ']' :: rest) := by
    rw [writeItems_cons]
    simp
  have hlength : (writeItems (item :: next :: items)).length =
      item.write.length + 1 + (writeItems (next :: items)).length := by
    rw [writeItems_cons]
    simp
    omega
  obtain ⟨fuel, rfl⟩ := Nat.exists_eq_add_of_le' (show 1 ≤ fuel by omega)
  have hread := h fuel (',' :: (writeItems (next :: items) ++ ']' :: rest)) (by omega)
    (endsNumber_cons _ (by decide))
  rw [hsplit, readItems, hread]
  change (readItems fuel (writeItems (next :: items) ++ ']' :: rest)).bind _ = _
  rw [hmore fuel rest (by omega)]
  rfl

/-- A key is read up to the colon after it, and the value under it follows. -/
theorem readMembers_key (fuel : Nat) (key : String) (more : List Char) :
    readMembers (fuel + 1) (writeString key ++ ':' :: more) =
      (readValue fuel more).bind fun (value, rest) => match skipBlanks rest with
        | ',' :: rest => (readMembers fuel rest).bind fun (members, rest) =>
            some ((escapeAll key.toList, value) :: members, rest)
        | '}' :: rest => some ([(escapeAll key.toList, value)], rest)
        | _ => none := by
  have hread := readString_escapeAll key.toList (':' :: more)
  have hsplit : writeString key ++ ':' :: more =
      '"' :: (escapeAll key.toList ++ '"' :: ':' :: more) := by simp [writeString, quoted]
  rw [hsplit]
  change (readString (escapeAll key.toList ++ '"' :: ':' :: more)).bind _ = _
  rw [hread]
  rfl

theorem ReadsAs.members {value : Document} {tree : Tree} (key : String) (h : value.ReadsAs tree) :
    MembersReadAs [(key, value)] [(escapeAll key.toList, tree)] := by
  intro fuel rest hfuel
  have hsplit : writeMembers [(key, value)] ++ '}' :: rest =
      writeString key ++ ':' :: (value.write ++ '}' :: rest) := by simp [writeMembers_cons]
  have hlength : (writeMembers [(key, value)]).length =
      (writeString key).length + 1 + value.write.length := by
    simp [writeMembers_cons]
    omega
  obtain ⟨fuel, rfl⟩ := Nat.exists_eq_add_of_le' (show 1 ≤ fuel by omega)
  rw [hsplit, readMembers_key, h fuel _ (by omega) (endsNumber_cons _ (by decide))]
  rfl

theorem ReadsAs.members_cons {value next : Document} {tree : Tree} {key other : String}
    {members : List (String × Document)} {trees : List (List Char × Tree)} (h : value.ReadsAs tree)
    (hmore : MembersReadAs ((other, next) :: members) trees) :
    MembersReadAs ((key, value) :: (other, next) :: members)
      ((escapeAll key.toList, tree) :: trees) := by
  intro fuel rest hfuel
  have hsplit : writeMembers ((key, value) :: (other, next) :: members) ++ '}' :: rest =
      writeString key ++ ':' ::
        (value.write ++ ',' :: (writeMembers ((other, next) :: members) ++ '}' :: rest)) := by
    rw [writeMembers_cons]
    simp
  have hlength : (writeMembers ((key, value) :: (other, next) :: members)).length =
      (writeString key).length + 1 + value.write.length + 1 +
        (writeMembers ((other, next) :: members)).length := by
    rw [writeMembers_cons]
    simp
    omega
  obtain ⟨fuel, rfl⟩ := Nat.exists_eq_add_of_le' (show 1 ≤ fuel by omega)
  rw [hsplit, readMembers_key, h fuel _ (by omega) (endsNumber_cons _ (by decide))]
  change (readMembers fuel (writeMembers ((other, next) :: members) ++ '}' :: rest)).bind _ = _
  rw [hmore fuel rest (by omega)]
  rfl

theorem ofTree?_array (room : Nat) (items : List Tree) :
    ofTree? (room + 1) (.array items) = (ofItems? room items).map .array := rfl

theorem ofTree?_object (room : Nat) (members : List (List Char × Tree)) :
    ofTree? (room + 1) (.object members) =
      (ofMembers? room members).map fun ms => .object (Keyed.ofList ms) := rfl

theorem ofItems?_cons (room : Nat) (item : Tree) (rest : List Tree) :
    ofItems? room (item :: rest) = (ofTree? room item).bind fun value =>
      (ofItems? room rest).bind fun values => some (value :: values) := rfl

theorem ofMembers?_cons (room : Nat) (key : List Char) (item : Tree) (rest : List (List Char × Tree)) :
    ofMembers? room ((key, item) :: rest) = (unescape key).bind fun name =>
      (ofTree? room item).bind fun value =>
        (ofMembers? room rest).bind fun members => some ((String.ofList name, value) :: members) := rfl

/-- The tree is that of a document with room enough, of this one if there are no doubles in it. -/
def TreeOf (d : Document) (tree : Tree) : Prop :=
  d.Proper → d.Finite → ∀ room, d.depth ≤ room →
    ∃ read, ofTree? room tree = some read ∧ (d.Exact → read = d)

/-- The trees are those of items with room enough, of these if there are no doubles in them. -/
def TreesOf (items : List Document) (trees : List Tree) : Prop :=
  ProperItems items → FiniteItems items → ∀ room, itemsDepth items ≤ room →
    ∃ read, ofItems? room trees = some read ∧ (ExactItems items → read = items)

/-- The trees under their keys are those of members with room enough, of these if there are no doubles in
them. -/
def MemberTreesOf (members : List (String × Document)) (trees : List (List Char × Tree)) : Prop :=
  ProperMembers members → FiniteMembers members → ∀ room, membersDepth members ≤ room →
    ∃ read, ofMembers? room trees = some read ∧ (ExactMembers members → read = members)

theorem treeOf_leaf {d : Document} {tree : Tree} (h : ∀ room, ofTree? room tree = some d) :
    d.TreeOf tree := fun _ _ room _ => ⟨d, h room, fun _ => rfl⟩

theorem TreesOf.nil : TreesOf [] [] := fun _ _ _ _ => ⟨[], rfl, fun _ => rfl⟩

theorem MemberTreesOf.nil : MemberTreesOf [] [] := fun _ _ _ _ => ⟨[], rfl, fun _ => rfl⟩

theorem TreesOf.array {items : List Document} {trees : List Tree} (h : TreesOf items trees) :
    TreeOf (.array items) (.array trees) := by
  intro hproper hfinite room hdepth
  rw [depth] at hdepth
  obtain ⟨room, rfl⟩ := Nat.exists_eq_add_of_le' (Nat.one_le_of_lt hdepth)
  obtain ⟨read, hread, hexact⟩ := h hproper hfinite room (Nat.le_of_succ_le_succ hdepth)
  refine ⟨.array read, ?_, fun h => congrArg Document.array (hexact h)⟩
  rw [ofTree?_array, hread, Option.map_some]

theorem MemberTreesOf.object {members : List (String × Document)} {trees : List (List Char × Tree)}
    (h : MemberTreesOf members trees) : TreeOf (.object members) (.object trees) := by
  intro hproper hfinite room hdepth
  rw [depth] at hdepth
  obtain ⟨room, rfl⟩ := Nat.exists_eq_add_of_le' (Nat.one_le_of_lt hdepth)
  obtain ⟨read, hread, hexact⟩ := h hproper.2 hfinite room (Nat.le_of_succ_le_succ hdepth)
  refine ⟨.object (Keyed.ofList read), ?_, fun h => ?_⟩
  · rw [ofTree?_object, hread, Option.map_some]
  · rw [hexact h, Keyed.ofList_of_ascending hproper.1]

theorem TreeOf.cons {item : Document} {items : List Document} {tree : Tree} {trees : List Tree}
    (h : item.TreeOf tree) (hmore : TreesOf items trees) : TreesOf (item :: items) (tree :: trees) := by
  intro hproper hfinite room hdepth
  have hdepths := Nat.max_le.mp hdepth
  obtain ⟨read, hread, hexact⟩ := h hproper.1 hfinite.1 room hdepths.1
  obtain ⟨reads, hreads, hexacts⟩ := hmore hproper.2 hfinite.2 room hdepths.2
  refine ⟨read :: reads, ?_, fun h => ?_⟩
  · rw [ofItems?_cons, hread, Option.bind_some, hreads, Option.bind_some]
  · rw [hexact h.1, hexacts h.2]

theorem TreeOf.member {value : Document} {tree : Tree} {members : List (String × Document)}
    {trees : List (List Char × Tree)} (key : String) (h : value.TreeOf tree)
    (hmore : MemberTreesOf members trees) :
    MemberTreesOf ((key, value) :: members) ((escapeAll key.toList, tree) :: trees) := by
  intro hproper hfinite room hdepth
  have hdepths := Nat.max_le.mp hdepth
  obtain ⟨read, hread, hexact⟩ := h hproper.1 hfinite.1 room hdepths.1
  obtain ⟨reads, hreads, hexacts⟩ := hmore hproper.2 hfinite.2 room hdepths.2
  have hname := unescape_escapeAll key.toList
  refine ⟨(key, read) :: reads, ?_, fun h => ?_⟩
  · rw [ofMembers?_cons, hname, Option.bind_some, hread, Option.bind_some, hreads, Option.bind_some,
      String.ofList_toList]
  · rw [hexact h.1, hexacts h.2]

mutual

/-- The tree as which the text of a document is read. -/
def tree : Document → Tree
  | .null => .null
  | .bool value => .bool value
  | .int n => .number (numeralOf n)
  | .real x => .number (numeralOfDecimal x.negative x.shortest)
  | .text s => .string (escapeAll s.toList)
  | .array items => .array (trees items)
  | .object members => .object (memberTrees members)

/-- The trees of items. -/
def trees : List Document → List Tree
  | [] => []
  | item :: rest => item.tree :: trees rest

/-- The trees of members under their keys as they are written. -/
def memberTrees : List (String × Document) → List (List Char × Tree)
  | [] => []
  | (key, value) :: rest => (escapeAll key.toList, value.tree) :: memberTrees rest

end

mutual

/-- The text of a document is read as its tree. -/
theorem readsAs_tree (d : Document) : d.ReadsAs d.tree := by
  match d with
  | .null => exact readsAs_of_succ fun _ _ _ _ => rfl
  | .bool value =>
    refine readsAs_of_succ fun _ _ _ _ => ?_
    cases value <;> rfl
  | .int n => exact readsAs_number (wellFormed_numeralOf n) (compact_numeralOf n).symm
  | .real x => exact readsAs_number (wellFormed_numeralOfDecimal _ _) (writeReal_eq x)
  | .text s => exact readsAs_text s
  | .array [] => exact readsAs_of_succ fun _ _ _ _ => rfl
  | .array (item :: items) => exact (itemsReadAs_trees (item :: items) (List.cons_ne_nil _ _)).array
  | .object [] => exact readsAs_of_succ fun _ _ _ _ => rfl
  | .object ((key, value) :: members) =>
    exact (membersReadAs_trees ((key, value) :: members) (List.cons_ne_nil _ _)).object

theorem itemsReadAs_trees (items : List Document) (hne : items ≠ []) :
    ItemsReadAs items (trees items) := by
  match items, hne with
  | [item], _ => exact (readsAs_tree item).items
  | item :: next :: rest, _ =>
    exact (readsAs_tree item).items_cons (itemsReadAs_trees (next :: rest) (List.cons_ne_nil _ _))

theorem membersReadAs_trees (members : List (String × Document)) (hne : members ≠ []) :
    MembersReadAs members (memberTrees members) := by
  match members, hne with
  | [(key, value)], _ => exact (readsAs_tree value).members key
  | (key, value) :: (other, next) :: rest, _ =>
    exact (readsAs_tree value).members_cons
      (membersReadAs_trees ((other, next) :: rest) (List.cons_ne_nil _ _))

end

mutual

/-- The tree of a document is read as a document. -/
theorem treeOf_tree (d : Document) : d.TreeOf d.tree := by
  match d with
  | .null => exact treeOf_leaf fun _ => rfl
  | .bool value => exact treeOf_leaf fun _ => rfl
  | .int n =>
    intro hproper _ _ _
    exact ⟨.int n, by rw [tree, ofTree?, toNumber_numeralOf hproper.1 hproper.2], fun _ => rfl⟩
  | .real x =>
    intro _ hfinite _ _
    obtain ⟨y, hy⟩ := exists_toNumber?_shortest hfinite
    exact ⟨.real y, by rw [tree, ofTree?, hy], fun hexact => absurd hexact id⟩
  | .text s =>
    refine treeOf_leaf fun _ => ?_
    rw [tree, ofTree?, unescape_escapeAll, Option.map_some, String.ofList_toList]
  | .array items => exact (treesOf_trees items).array
  | .object members => exact (memberTreesOf_trees members).object

theorem treesOf_trees (items : List Document) : TreesOf items (trees items) := by
  match items with
  | [] => exact .nil
  | item :: rest => exact (treeOf_tree item).cons (treesOf_trees rest)

theorem memberTreesOf_trees (members : List (String × Document)) :
    MemberTreesOf members (memberTrees members) := by
  match members with
  | [] => exact .nil
  | (key, value) :: rest => exact (treeOf_tree value).member key (memberTreesOf_trees rest)

end

theorem ReadsAs.read {d : Document} {tree : Tree} (h : d.ReadsAs tree) :
    Tree.read d.compact = some tree := by
  have hvalue := h (2 * d.write.length + 2) [] (by omega) (fun _ h => absurd h (Option.not_mem_none _))
  rw [List.append_nil] at hvalue
  rw [Tree.read, compact, String.toList_ofList, hvalue]
  rfl

/-- The compact text of a document is JSON. -/
theorem read_tree (d : Document) : Tree.read d.compact = some d.tree := (readsAs_tree d).read

theorem exists_tree (d : Document) : ∃ tree, Tree.read d.compact = some tree := ⟨d.tree, read_tree d⟩

/-- The compact text of an array is read as an array of what the texts of its items are read as. -/
theorem read_array (items : List Document) :
    ∃ trees, Tree.read (array items).compact = some (.array trees) ∧
      List.Forall₂ (fun item tree => Tree.read item.compact = some tree) items trees := by
  refine ⟨trees items, read_tree (array items), ?_⟩
  induction items with
  | nil => exact .nil
  | cons item rest ih => exact .cons (read_tree item) ih

mutual

/-- Where there are no doubles, they are all finite. -/
theorem Exact.finite {d : Document} (h : d.Exact) : d.Finite := by
  match d, h with
  | .null, _ | .bool _, _ | .int _, _ | .text _, _ => trivial
  | .array _, h => exact finiteItems_of_exact h
  | .object _, h => exact finiteMembers_of_exact h

theorem finiteItems_of_exact {items : List Document} (h : ExactItems items) : FiniteItems items := by
  match items, h with
  | [], _ => trivial
  | _ :: _, h => exact ⟨Exact.finite h.1, finiteItems_of_exact h.2⟩

theorem finiteMembers_of_exact {members : List (String × Document)} (h : ExactMembers members) :
    FiniteMembers members := by
  match members, h with
  | [], _ => trivial
  | (_, _) :: _, h => exact ⟨Exact.finite h.1, finiteMembers_of_exact h.2⟩

end

/-- The compact text of a document is read as a document. -/
theorem exists_read_compact {d : Document} (hproper : d.Proper) (hfinite : d.Finite)
    (hdepth : d.depth ≤ maxNesting) :
    ∃ read, Document.read d.compact = some read ∧ (d.Exact → read = d) := by
  rw [Document.read, read_tree, Option.bind_some]
  exact treeOf_tree d hproper hfinite _ hdepth

/-- The compact text of a document without doubles is read as that document. -/
theorem read_compact {d : Document} (hexact : d.Exact) (hproper : d.Proper)
    (hdepth : d.depth ≤ maxNesting) : Document.read d.compact = some d := by
  obtain ⟨read, hread, hsame⟩ := exists_read_compact hproper hexact.finite hdepth
  rw [hread, hsame hexact]

end Document

end InventoryFeed

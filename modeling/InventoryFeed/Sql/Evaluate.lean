import InventoryFeed.Sql.Extract
import InventoryFeed.Sql.Like
import InventoryFeed.Sql.Select

/-!
# Running a routed query

A query runs over the rows of a relation. Conditions have three truth values: a comparison with nothing
has neither of the other two, and a row is answered when its condition is true. `Condition.is` asks for
one of the two, and looks at no more children than it needs. A grouped query answers each id once, in
the order of the ids, with the row that decides its last sort key; rows are then sorted, nothing before
everything, and rows that are equal in all keys stay in order.

A document that has to be looked into but is no JSON makes the query fail. What was answered before
then stays answered; a sorted query has answered nothing before its end.
-/

namespace InventoryFeed.Sql

/-- A column of a relation. -/
structure RelationColumn where
  /-- The column's name. -/
  name : String
  /-- The join that brings the column in, from zero on. -/
  join : Nat
  deriving DecidableEq, Repr

/-- The rows of a table or view. -/
structure Relation where
  /-- The columns. -/
  columns : List RelationColumn
  /-- The rows, a value for each column. -/
  rows : List (List Value)
  deriving Repr

/-- Why a query fails. -/
inductive QueryError where
  /-- There is no such table or view. -/
  | noTable (name : String)
  /-- There is no such column. -/
  | noColumn (name : String)
  /-- A document that is looked into is no JSON. -/
  | malformed
  deriving DecidableEq, Repr

/-- The wording of a failure. -/
def QueryError.text : QueryError → String
  | noTable name => "no such table: " ++ name
  | noColumn name => "no such column: " ++ name
  | malformed => "malformed JSON"

namespace Relation

/-- The position of a column, its name in any letter case. -/
def position? (r : Relation) (name : String) : Option Nat :=
  r.columns.findIdx? fun column => Ascii.sameIgnoringCase column.name name

/-- The value of a column in a row. -/
def value (r : Relation) (row : List Value) (column : Column) : Value :=
  ((r.position? column.name).bind fun i => row[i]?).getD .null

/-- The join that brings a column in. -/
def joinOf (r : Relation) (column : Column) : Nat :=
  (((r.position? column.name).bind fun i => r.columns[i]?).map (·.join)).getD 0

end Relation

/-- What the values of a query are looked up in. -/
structure Scope where
  /-- The relation. -/
  relation : Relation
  /-- The values of the placeholders, from number one on. -/
  params : List Value

namespace Scope

/-- The value of a placeholder. -/
def param (s : Scope) (n : Nat) : Value := (s.params[n - 1]?).getD .null

/-- The value at a path of the document in a column. -/
def extracted (s : Scope) (row : List Value) (column : Column) (path : Nat) :
    Except QueryError Value :=
  match (s.relation.value row column).text?, (s.param path).text? with
  | some doc, some path =>
    match extract? doc path with
    | some v => .ok v
    | none => .error .malformed
  | _, _ => .ok .null

end Scope

/-- Whether two values compare as an operator asks; none if one of them is nothing. -/
def compareBy (op : CompareOp) (a b : Value) : Option Bool :=
  match a, b with
  | .null, _ => none
  | _, .null => none
  | a, b =>
    match op with
    | .eq => some (a.compare b = .eq)
    | .ne => some (a.compare b ≠ .eq)
    | .lt => some (a.compare b = .lt)
    | .le => some (a.compare b ≠ .gt)
    | .gt => some (a.compare b = .gt)
    | .ge => some (a.compare b ≠ .lt)
    | .like =>
      match a.text?, b.text? with
      | some subject, some pattern => some (Sql.like subject pattern)
      | _, _ => none

namespace Condition

mutual

/-- Whether a condition has the truth value asked for on a row. -/
def is (s : Scope) (row : List Value) (wanted : Bool) : Condition → Except QueryError Bool
  | constant value => .ok (value = wanted)
  | test column path op operand => do
    let value ← s.extracted row column path
    pure (compareBy op value (s.param operand) = some wanted)
  | conj children => if wanted then areAll s row true children else isAny s row false children
  | disj children => if wanted then isAny s row true children else areAll s row false children
  | neg child => child.is s row (!wanted)

/-- Whether all of several conditions have the truth value asked for, up to the first that has
not. -/
def areAll (s : Scope) (row : List Value) (wanted : Bool) :
    List Condition → Except QueryError Bool
  | [] => .ok true
  | child :: rest => do
    if ← child.is s row wanted then areAll s row wanted rest else pure false

/-- Whether one of several conditions has the truth value asked for, up to the first that has. -/
def isAny (s : Scope) (row : List Value) (wanted : Bool) : List Condition → Except QueryError Bool
  | [] => .ok false
  | child :: rest => do
    if ← child.is s row wanted then pure true else isAny s row wanted rest

end

mutual

/-- The columns that a condition looks into. -/
def columns : Condition → List Column
  | constant _ => []
  | test column _ _ _ => [column]
  | conj children => columnsOfAll children
  | disj children => columnsOfAll children
  | neg child => child.columns

/-- The columns that several conditions look into. -/
def columnsOfAll : List Condition → List Column
  | [] => []
  | child :: rest => child.columns ++ columnsOfAll rest

end

mutual

/-- The conditions of which all must hold: those of a conjunction, and of conjunctions in it. -/
def terms : Condition → List Condition
  | conj children => termsOfAll children
  | condition => [condition]

/-- The terms of several conditions. -/
def termsOfAll : List Condition → List Condition
  | [] => []
  | child :: rest => child.terms ++ termsOfAll rest

end

/-- After how many joins a condition can be tested; zero without a column. -/
def depth (r : Relation) (c : Condition) : Nat :=
  (c.columns.map fun column => r.joinOf column + 1).foldl max 0

/-- The terms of a condition in the order in which rows are tested: those that need fewer joins
first. -/
def tested (r : Relation) (c : Condition) : List Condition :=
  (List.range 4).flatMap fun depth => c.terms.filter fun term => term.depth r = depth

/-- Whether a row is answered. -/
def passes (s : Scope) (c : Condition) (row : List Value) : Except QueryError Bool :=
  areAll s row true (c.tested s.relation)

end Condition

/-- Rows up to a failure, if there is one. -/
structure Rows (α : Type) where
  /-- The rows. -/
  rows : List α
  /-- Why there are no more, if that is not their end. -/
  failure : Option QueryError
  deriving Repr

namespace Rows

variable {α β : Type}

/-- All rows or a failure. -/
def ofExcept : Except QueryError (List α) → Rows α
  | .ok rows => ⟨rows, none⟩
  | .error e => ⟨[], some e⟩

/-- The rows as a whole, which is a failure if one comes after them. -/
def toExcept (r : Rows α) : Except QueryError (List α) :=
  match r.failure with
  | none => .ok r.rows
  | some e => .error e

/-- The rows of a list that pass a test, up to the first that cannot be tested. -/
def filterM (test : α → Except QueryError Bool) : List α → Rows α
  | [] => ⟨[], none⟩
  | a :: rest =>
    match test a with
    | .error e => ⟨[], some e⟩
    | .ok false => filterM test rest
    | .ok true =>
      let more := filterM test rest
      { more with rows := a :: more.rows }

/-- Change every row. -/
def map (f : α → β) (r : Rows α) : Rows β := ⟨r.rows.map f, r.failure⟩

/-- A page of the rows; a failure behind the page is not reached. -/
def page (limit : Option Nat) (offset : Nat) (r : Rows α) : Rows α :=
  match limit with
  | none => { r with rows := r.rows.drop offset }
  | some n =>
    if n = 0 then ⟨[], none⟩
    else ⟨(r.rows.drop offset).take n, if offset + n ≤ r.rows.length then none else r.failure⟩

end Rows

/-- A row with the values to sort it by. -/
structure KeyedRow where
  /-- The values, the most important first. -/
  keys : List Value
  /-- The row. -/
  row : List Value
  deriving Repr

/-- The least or the greatest of the values so far and one more, and whether the row is to be kept
for it: it is if nothing was found before or its value is better. -/
def better (descending : Bool) (best v : Value) : Value × Bool :=
  match best, v with
  | .null, v => (v, true)
  | best, .null => (best, false)
  | best, v =>
    let wanted := if descending then Ordering.gt else Ordering.lt
    if v.compare best = wanted then (v, true) else (best, false)

/-- The rows of one id taken together: the first row, replaced as the last key finds better ones. -/
def KeyedRow.merge (order : List OrderTerm) (group next : KeyedRow) : KeyedRow :=
  let merged := (order.zip (group.keys.zip next.keys)).map fun (term, best, v) =>
    better term.descending best v
  { keys := merged.map (·.1)
    row := if (merged.getLast?.map (·.2)).getD false then next.row else group.row }

/-- The order of rows by their keys. -/
def KeyedRow.before (order : List OrderTerm) (a b : KeyedRow) : Bool :=
  let compared := (order.zip (a.keys.zip b.keys)).map fun (term, x, y) =>
    if term.descending then (x.compare y).swap else x.compare y
  (compared.find? fun o => o ≠ .eq) ≠ some .gt

namespace Select

/-- The columns that a query names. -/
def columns (q : Select) : List Column :=
  q.id :: q.doc :: (q.condition.columns ++ q.order.map (·.column))

/-- The keys of a row. -/
def keyed (q : Select) (s : Scope) (row : List Value) : Except QueryError KeyedRow := do
  let keys ← q.order.mapM fun term => s.extracted row term.column term.path
  pure ⟨keys, row⟩

/-- The rows of equal ids taken together; rows of one id stand side by side. -/
def group (q : Select) (s : Scope) : List KeyedRow → List KeyedRow
  | [] => []
  | row :: rest =>
    let key (k : KeyedRow) : Value := s.relation.value k.row q.id
    let (groups, last) := rest.foldl (fun (groups, last) next =>
      if (key last).compare (key next) = .eq then (groups, last.merge q.order next)
      else (last :: groups, next)) (([] : List KeyedRow), row)
    (last :: groups).reverse

/-- The rows in the order of their ids. -/
def byId (q : Select) (s : Scope) : List (List Value) :=
  s.relation.rows.mergeSort fun a b =>
    (s.relation.value a q.id).compare (s.relation.value b q.id) ≠ .gt

/-- Whether the store walks along an index of the ids, so that groups are answered one by one. -/
def indexed (q : Select) : Bool :=
  Ascii.sameIgnoringCase q.id.name "id" || Ascii.sameIgnoringCase q.id.name "rowid"

/-- The answered rows before a page is cut out. -/
def answered (q : Select) (s : Scope) : Rows (List Value) :=
  let source := if q.grouped then q.byId s else s.relation.rows
  let passing := Rows.filterM (q.condition.passes s) source
  if q.order.isEmpty then
    if q.grouped then
      let groups := (q.group s (passing.rows.map fun row => ⟨[], row⟩)).map (·.row)
      match passing.failure with
      | none => ⟨groups, none⟩
      | some e => ⟨if q.indexed then groups.dropLast else [], some e⟩
    else passing
  else
    (Rows.ofExcept do
      let rows ← (← passing.toExcept).mapM (q.keyed s)
      pure ((if q.grouped then q.group s rows else rows).mergeSort (KeyedRow.before q.order))).map (·.row)

/-- The bounds of a page; a negative one is none. -/
def bounds (q : Select) (s : Scope) : Option Nat × Nat :=
  match q.page with
  | none => (none, 0)
  | some page =>
    let bound (n : Nat) : Option Nat := match s.param n with
      | .integer n => if 0 ≤ n then some n.toNat else none
      | _ => none
    (bound page.limit, (bound page.offset).getD 0)

/-- The id and the document of every answered row, or why the query cannot be run. -/
def run (q : Select) (relation : Relation) (params : List Value) :
    Except QueryError (Rows (Value × Value)) :=
  match q.columns.find? fun column => (relation.position? column.name).isNone with
  | some column => .error (.noColumn column.render)
  | none =>
    let s : Scope := ⟨relation, params⟩
    let (limit, offset) := q.bounds s
    .ok (((q.answered s).page limit offset).map fun row =>
      (relation.value row q.id, relation.value row q.doc))

end Select

end InventoryFeed.Sql

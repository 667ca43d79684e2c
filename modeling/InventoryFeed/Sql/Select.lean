import InventoryFeed.Query.Basic

/-!
# The form of a routed query

A condition is a tree over tests of a document's path against a bound operand; every value and
every path is a placeholder, so the only names in the text are those of the view and its columns.
`render` writes condition and query as the store reads them.
-/

namespace InventoryFeed.Sql

/-- A column of a view. -/
structure Column where
  /-- The view. -/
  view : String
  /-- The column in it. -/
  name : String
  deriving DecidableEq, Repr

/-- A condition in the WHERE clause. -/
inductive Condition where
  /-- A fixed truth value. -/
  | constant (value : Bool)
  /-- The value at a path of a document compared with an operand; both are placeholder numbers. -/
  | test (column : Column) (path : Nat) (op : CompareOp) (operand : Nat)
  /-- All of the conditions, of which there is at least one. -/
  | conj (children : List Condition)
  /-- One of the conditions, of which there is at least one. -/
  | disj (children : List Condition)
  /-- The opposite of the condition. -/
  | neg (child : Condition)
  deriving Repr, Inhabited

/-- A key to sort by. -/
structure OrderTerm where
  /-- The column of the document. -/
  column : Column
  /-- The placeholder of the path. -/
  path : Nat
  /-- Whether the greatest value comes first. -/
  descending : Bool
  deriving DecidableEq, Repr

/-- The placeholders of a page. -/
structure Page where
  /-- The greatest number of rows. -/
  limit : Nat
  /-- The number of rows to leave out. -/
  offset : Nat
  deriving DecidableEq, Repr

/-- A query over one view. -/
structure Select where
  /-- The view. -/
  view : String
  /-- The column of the record's id. -/
  id : Column
  /-- The column of the record's document. -/
  doc : Column
  /-- The condition on the view's rows. -/
  condition : Condition
  /-- Whether the rows of a record are taken together, so that it is answered once. -/
  grouped : Bool
  /-- The keys to sort by, the most important first. -/
  order : List OrderTerm
  /-- The page, if one is asked for. -/
  page : Option Page
  deriving Repr

/-- The text of a placeholder. -/
def placeholder (n : Nat) : String := "?" ++ toString n

/-- The text of a column. -/
def Column.render (c : Column) : String := c.view ++ "." ++ c.name

/-- The text of a document's value at a path. -/
def renderValue (column : Column) (path : Nat) : String :=
  "json_extract(" ++ column.render ++ ", " ++ placeholder path ++ ")"

namespace Condition

/-- The text of a comparison after its left side. -/
def renderOperand (op : CompareOp) (operand : Nat) : String :=
  match op with
  | .like => " LIKE " ++ placeholder operand ++ " ESCAPE '\\'"
  | op => " " ++ op.name ++ " " ++ placeholder operand

mutual

/-- The text of a condition. -/
def render : Condition → String
  | constant true => "1 = 1"
  | constant false => "1 = 0"
  | test column path op operand => renderValue column path ++ renderOperand op operand
  | conj children => "(" ++ renderEach " AND " children ++ ")"
  | disj children => "(" ++ renderEach " OR " children ++ ")"
  | neg child => "NOT (" ++ child.render ++ ")"

/-- The texts of several conditions with a word between them. -/
def renderEach (between : String) : List Condition → String
  | [] => ""
  | [child] => child.render
  | child :: next :: rest => child.render ++ between ++ renderEach between (next :: rest)

end

end Condition

/-- The text of a sort key; a record's rows are sorted by their least or greatest value. -/
def OrderTerm.render (grouped : Bool) (term : OrderTerm) : String :=
  let value := renderValue term.column term.path
  match grouped, term.descending with
  | true, true => "MAX(" ++ value ++ ") DESC"
  | true, false => "MIN(" ++ value ++ ") ASC"
  | false, true => value ++ " DESC"
  | false, false => value ++ " ASC"

/-- The text of a query. -/
def Select.render (s : Select) : String :=
  "SELECT " ++ s.id.render ++ ", " ++ s.doc.render ++ " FROM " ++ s.view
    ++ " WHERE " ++ s.condition.render
    ++ (if s.grouped then " GROUP BY " ++ s.id.render else "")
    ++ (if s.order.isEmpty then "" else
      " ORDER BY " ++ String.intercalate ", " (s.order.map (OrderTerm.render s.grouped)))
    ++ (match s.page with
        | some page => " LIMIT " ++ placeholder page.limit ++ " OFFSET " ++ placeholder page.offset
        | none => "")

end InventoryFeed.Sql

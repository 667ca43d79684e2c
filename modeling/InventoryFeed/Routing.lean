import InventoryFeed.Catalog.Basic
import InventoryFeed.Query.Wildcard
import InventoryFeed.Sql.Select
import InventoryFeed.Sql.Value

/-!
# Routing

A request goes to the view of the deepest level that one of its field references reaches, since a
deeper join carries the columns of every shallower entity. Each reference becomes the column of its
own level in that view. Literals, paths and paging become placeholders, numbered from one in the
order of the text; only names from the catalog are part of the text.
-/

namespace InventoryFeed

/-- Why a request cannot be routed. -/
inductive RoutingError where
  /-- The catalog does not know the qualifier of a reference. -/
  | unknownQualifier (qualifier : String) (field : String)
  /-- The path of a reference is not steps of letters, digits and underscores. -/
  | invalidField (field : String)
  deriving DecidableEq, Repr

namespace RoutingError

/-- The wording of a routing error. -/
def message : RoutingError → String
  | unknownQualifier qualifier field =>
    "unrecognized field qualifier '" ++ qualifier ++ "' on field '" ++ field ++ "'"
  | invalidField field => "invalid field path '" ++ field ++ "'"

/-- The name of an error's kind. -/
def kind : RoutingError → String
  | unknownQualifier _ _ => "UnknownQualifier"
  | invalidField _ => "InvalidField"

/-- The field that is to be mended. -/
def field : RoutingError → String
  | unknownQualifier _ field => field
  | invalidField field => field

end RoutingError

/-- A request as the store runs it. -/
structure RoutedQuery where
  /-- The deepest level of the request's references. -/
  level : Level
  /-- The query over the view of that level. -/
  select : Sql.Select
  /-- The values of the placeholders, from number one on. -/
  params : List Sql.Value
  deriving Repr

namespace RoutedQuery

/-- The name of the view. -/
def view (q : RoutedQuery) : String := q.select.view

/-- The text of the condition. -/
def whereText (q : RoutedQuery) : String := q.select.condition.render

/-- The text of the query. -/
def text (q : RoutedQuery) : String := q.select.render

end RoutedQuery

namespace FieldRef

/-- Whether the characters left make up the rest of a path; `inStep` when a step has begun. -/
def isPathFrom (inStep : Bool) : List Char → Bool
  | [] => inStep
  | c :: rest =>
    if c = '.' then inStep && isPathFrom false rest
    else Ascii.isWord c && isPathFrom true rest

/-- Whether a path is a list of steps divided by points, each of letters, digits, underscores. -/
def isPath (path : String) : Bool := isPathFrom false path.toList

/-- The level that a reference reaches. -/
def level (catalog : Catalog) (field : FieldRef) : Except RoutingError Level :=
  if isPath field.path then
    match catalog.levelOf field.qualifier with
    | some level => .ok level
    | none => .error (.unknownQualifier (field.qualifier.getD "") field.display)
  else .error (.invalidField field.display)

end FieldRef

namespace Request

/-- The level that each reference reaches, in order. -/
def levels (catalog : Catalog) (r : Request) : Except RoutingError (List Level) :=
  r.fields.mapM (FieldRef.level catalog)

/-- The deepest of some levels; the record's own when there is none. -/
def deepest (levels : List Level) : Level := levels.foldl Level.max .base

/-- The levels that some references reach, each once, the shallowest first. -/
def levelSet (levels : List Level) : List Level := Level.all.filter fun level => level ∈ levels

end Request

namespace Literal

/-- Doubles in a pattern: around a point always, and none for a whole number. -/
def plainLayout : DecimalLayout where
  lowest := none
  highest := none
  wholeFraction := false
  exponentFraction := false
  exponentPlus := false
  exponentWidth := 1

/-- The value that a literal is bound as. -/
def value : Literal → Sql.Value
  | .bool b => .integer (if b then 1 else 0)
  | .int n => .integer n.toInt
  | .real x => .real x
  | .text s => .text s

/-- The text of a literal in a pattern. -/
def pattern : Literal → String
  | .bool b => if b then "true" else "false"
  | .int n => toString n.toInt
  | .real x => plainLayout.write x
  | .text s => s

/-- The value that a comparison's literal is bound as: a pattern for a match. -/
def operand (op : CompareOp) (literal : Literal) : Sql.Value :=
  match op with
  | .like => .text (Wildcard.likePattern literal.pattern)
  | _ => literal.value

end Literal

namespace Routing

/-- The value that a path is bound as. -/
def pathValue (path : String) : Sql.Value := .text ("$." ++ path)

/-- The column of a level's entity in a view. -/
def columnOf (v : View) (level : Level) : Except RoutingError Sql.Column :=
  match v.columns.get level with
  | some name => .ok ⟨v.name, name⟩
  | none => .error (.invalidField (v.name ++ ".<" ++ level.name ++ ">"))

/-- The column that a reference means in a view. -/
def columnOfField (catalog : Catalog) (v : View) (field : FieldRef) :
    Except RoutingError Sql.Column := do
  columnOf v (← field.level catalog)

mutual

/-- The condition of a predicate, its placeholders numbered from `n` on, and their values. -/
def condition (catalog : Catalog) (v : View) (n : Nat) :
    Predicate → Except RoutingError (Sql.Condition × List Sql.Value)
  | .all => .ok (.constant true, [])
  | .compare field op literal => do
    let column ← columnOfField catalog v field
    pure (.test column n op (n + 1), [pathValue field.path, literal.operand op])
  | .conj [] => .ok (.constant true, [])
  | .conj (child :: rest) => do
    let (children, params) ← conditions catalog v n (child :: rest)
    pure (.conj children, params)
  | .disj [] => .ok (.constant false, [])
  | .disj (child :: rest) => do
    let (children, params) ← conditions catalog v n (child :: rest)
    pure (.disj children, params)
  | .neg child => do
    let (inner, params) ← condition catalog v n child
    pure (.neg inner, params)

/-- The conditions of several predicates, numbered one after the other. -/
def conditions (catalog : Catalog) (v : View) (n : Nat) :
    List Predicate → Except RoutingError (List Sql.Condition × List Sql.Value)
  | [] => .ok ([], [])
  | child :: rest => do
    let (first, params) ← condition catalog v n child
    let (others, more) ← conditions catalog v (n + params.length) rest
    pure (first :: others, params ++ more)

end

/-- The terms of an order, their paths numbered from `n` on, and their values. -/
def orderTerms (catalog : Catalog) (v : View) (n : Nat) :
    List SortKey → Except RoutingError (List Sql.OrderTerm × List Sql.Value)
  | [] => .ok ([], [])
  | key :: rest => do
    let column ← columnOfField catalog v key.field
    let (terms, params) ← orderTerms catalog v (n + 1) rest
    pure (⟨column, n, key.descending⟩ :: terms, pathValue key.field.path :: params)

/-- A number of rows as it is bound: at most the greatest integer of the store. -/
def rowCount (n : UInt64) : Sql.Value := .ofCount n.toNat

/-- The page of a request, its placeholders numbered from `n` on; a missing limit is bound as `-1`,
which bounds nothing. -/
def page (n : Nat) (r : Request) : Option Sql.Page × List Sql.Value :=
  if r.paged then
    (some ⟨n, n + 1⟩, [(r.limit.map rowCount).getD (.integer (-1)), rowCount r.offset])
  else (none, [])

end Routing

/-- Route a request by a catalog. -/
def Request.route (catalog : Catalog) (r : Request) : Except RoutingError RoutedQuery := do
  let level := Request.deepest (← r.levels catalog)
  let v := catalog.views.get level
  let (condition, params) ← Routing.condition catalog v 1 r.predicate
  let doc ← Routing.columnOf v .base
  let (order, orderParams) ← Routing.orderTerms catalog v (1 + params.length) r.sort
  let (page, pageParams) := Routing.page (1 + params.length + orderParams.length) r
  pure {
    level
    select := {
      view := v.name
      id := ⟨v.name, catalog.idColumn⟩
      doc, condition, order, page
      grouped := Level.base.depth < level.depth }
    params := params ++ orderParams ++ pageParams }

end InventoryFeed

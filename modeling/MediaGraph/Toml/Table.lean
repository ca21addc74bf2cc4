/-
Tables of TOML documents, put together statement by statement.

A table may be defined once. Tables that a longer path merely passes through
come into being on the way and may still be defined later; tables made by
dotted keys stay open to further dotted keys only.

* `Item`: what a key leads to while a document is read.
* `Item.value`: the value that it stands for.
* `Table.descend`: a change to the table at the end of a path.
* `Table.insertPair`, `Table.openTable`, `Table.openElement`: what a statement
  does.
* `tableOf?`: the entries of a whole document.
-/
import MediaGraph.Toml.Value

namespace MediaGraph.Toml

/-- What a key leads to. -/
inductive Item where
  /-- A value; a table among them is closed. -/
  | closed (value : Value)
  /-- A table that headers or dotted keys can reach. -/
  | table (implicit dotted : Bool) (entries : List (String × Item))
  /-- An array of tables that headers add to; the last one is open. -/
  | tables (earlier : List (List (String × Item)))
      (last : List (String × Item))

mutual

/-- The value that an item stands for. -/
def Item.value : Item → Value
  | .closed v => v
  | .table _ _ entries => .table (entryValues entries)
  | .tables earlier last =>
    .array (tableValues earlier ++ [.table (entryValues last)])

/-- The values of entries. -/
def entryValues : List (String × Item) → List (String × Value)
  | [] => []
  | (key, item) :: rest => (key, item.value) :: entryValues rest

/-- The values of the tables of an array. -/
def tableValues : List (List (String × Item)) → List Value
  | [] => []
  | entries :: rest => .table (entryValues entries) :: tableValues rest

end

/-- A table that can still grow. -/
structure Table where
  /-- Whether no header named it yet. -/
  implicit : Bool := false
  /-- Whether a dotted key made it. -/
  dotted : Bool := false
  entries : List (String × Item) := []

namespace Table

/-- What a key leads to. -/
def get? (t : Table) (key : String) : Option Item := t.entries.lookup key

/-- Makes a key lead to an item. -/
def put (t : Table) (key : String) (item : Item) : Table :=
  { t with entries :=
      if (t.get? key).isSome then
        t.entries.map fun e => if e.1 = key then (key, item) else e
      else t.entries ++ [(key, item)] }

/-- The table as an item. -/
def item (t : Table) : Item := .table t.implicit t.dotted t.entries

/-- Changes the table at the end of a path. The tables on the way come into
being if they are missing; the last table of an array stands for the array.
Dotted keys may pass only through tables that no header named. -/
def descend (dotted : Bool) (change : Table → Option Table) :
    Path → Table → Option Table
  | [], t => change t
  | key :: path, t =>
    match t.get? key with
    | none =>
      (descend dotted change path { implicit := true, dotted }).map fun inner =>
        t.put key inner.item
    | some (.closed _) => none
    | some (.table implicit isDotted entries) =>
      if dotted && !implicit then none
      else
        (descend dotted change path
            { implicit, dotted := isDotted, entries }).map
          fun inner => t.put key inner.item
    | some (.tables earlier last) =>
      (descend dotted change path { entries := last }).map fun inner =>
        t.put key (.tables earlier inner.entries)

/-- Adds a key with its value. A table that a header or a path made takes no
dotted key, and one that dotted keys made takes no other. -/
def insertPair (path : Path) (value : Value) (t : Table) : Option Table :=
  match path.getLast? with
  | none => none
  | some key =>
    descend true (fun inner =>
      if inner.dotted = path.dropLast.isEmpty then none
      else if (inner.get? key).isSome then none
      else some (inner.put key (.closed value))) path.dropLast t

/-- Adds the pairs that follow a header to its table. -/
def fill (pairs : List (Path × Value)) (t : Table) : Option Table :=
  pairs.foldlM (fun t (path, value) => t.insertPair path value) t

/-- Defines a table by a header and the pairs that follow it. A table that
longer paths passed through before may be defined now. -/
def openTable (path : Path) (pairs : List (Path × Value)) (t : Table) :
    Option Table :=
  match path.getLast? with
  | none => none
  | some key =>
    descend false (fun parent =>
      match parent.get? key with
      | none => (fill pairs {}).map fun inner => parent.put key inner.item
      | some (.table true false entries) =>
        (fill pairs { entries }).map fun inner => parent.put key inner.item
      | some _ => none) path.dropLast t

/-- Adds a table to an array by a header and the pairs that follow it. -/
def openElement (path : Path) (pairs : List (Path × Value)) (t : Table) :
    Option Table :=
  match path.getLast? with
  | none => none
  | some key =>
    descend false (fun parent =>
      match parent.get? key with
      | none => (fill pairs {}).map fun inner =>
          parent.put key (.tables [] inner.entries)
      | some (.tables earlier last) => (fill pairs {}).map fun inner =>
          parent.put key (.tables (earlier ++ [last]) inner.entries)
      | some _ => none) path.dropLast t

end Table

/-- The pairs up to the next header, and the statements from it on. -/
def splitPairs : List Statement → List (Path × Value) × List Statement
  | .pair path value :: rest =>
    ((path, value) :: (splitPairs rest).1, (splitPairs rest).2)
  | rest => ([], rest)

theorem length_splitPairs_le (s : List Statement) :
    (splitPairs s).2.length ≤ s.length := by
  fun_induction splitPairs s with
  | case1 path value rest ih => exact Nat.le_succ_of_le ih
  | case2 => exact Nat.le_refl _

/-- Adds headers with their pairs to a table. -/
def addSections (s : List Statement) (t : Table) : Option Table :=
  match s with
  | [] => some t
  | .pair path value :: rest =>
    (t.insertPair path value).bind (addSections rest)
  | .table path :: rest =>
    (t.openTable path (splitPairs rest).1).bind
      (addSections (splitPairs rest).2)
  | .element path :: rest =>
    (t.openElement path (splitPairs rest).1).bind
      (addSections (splitPairs rest).2)
termination_by s.length
decreasing_by
  · exact Nat.lt_succ_self _
  · exact Nat.lt_succ_of_le (length_splitPairs_le rest)
  · exact Nat.lt_succ_of_le (length_splitPairs_le rest)

/-- The entries of a document. -/
def tableOf? (s : List Statement) : Option (List (String × Value)) :=
  (addSections s {}).map fun t => entryValues t.entries

end MediaGraph.Toml

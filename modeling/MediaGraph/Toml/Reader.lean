/-
Reading TOML documents.

Every function takes the characters that are left and gives a result together
with the characters that are left then.

* `key?`: keys joined by dots.
* `value?`: a value; arrays and inline tables nest to a bounded depth.
* `line?`: one line of a document, with the lines that its value extends over.
* `statements?`: the statements of a document.
* `read?`: its entries.
-/
import MediaGraph.Toml.Scalar
import MediaGraph.Toml.Table

namespace MediaGraph.Toml

/-! ### Keys -/

/-- A character of a key without quotes. -/
def isBare (c : Char) : Bool := c.isAlphanum || c = '_' || c = '-'

/-- A key without dots. -/
def simpleKey? : List Char → Option (String × List Char)
  | '"' :: r => (basicBody false r).map fun (k, r) => (String.ofList k, r)
  | '\'' :: r => (literalBody false r).map fun (k, r) => (String.ofList k, r)
  | cs =>
    match cs.takeWhile isBare with
    | [] => none
    | k => some (String.ofList k, cs.dropWhile isBare)

/-- At most `limit` keys joined by dots. -/
def keys? : Nat → List Char → Option (Path × List Char)
  | 0, _ => none
  | limit + 1, cs => do
    let (k, r) ← simpleKey? (skipSpace cs)
    match skipSpace r with
    | '.' :: r => do
      let (path, r) ← keys? limit r
      pure (k :: path, r)
    | r => pure ([k], r)

/-- How many keys a path may have, and how deep values may nest. -/
def depthLimit : Nat := 79

/-- A key path. -/
def key? (cs : List Char) : Option (Path × List Char) := keys? depthLimit cs

/-! ### Values -/

/-- Reads one thing and gives the characters that are left. -/
abbrev Read (α : Type) := List Char → Option (α × List Char)

/-- The items of an array after its bracket or after a comma. -/
def arrayItems? (item : Read Value) (cs : List Char) :
    Option (List Value × List Char) :=
  match skipTrivia cs with
  | ']' :: r => some ([], r)
  | start =>
    match item start with
    | none => none
    | some (v, r) =>
      match skipTrivia r with
      | ']' :: r => some ([v], r)
      | ',' :: r =>
        if _shorter : r.length < cs.length then
          (arrayItems? item r).map fun (vs, r) => (v :: vs, r)
        else none
      | _ => none
termination_by cs.length

/-- A key path, an equals sign and a value. -/
def pair? (item : Read Value) : Read (Path × Value) := fun cs => do
  let (path, r) ← key? cs
  match r with
  | '=' :: r => do
    let (v, r) ← item (skipSpace r)
    pure ((path, v), r)
  | _ => none

/-- The pairs of an inline table after its brace or after a comma. -/
def inlinePairs? (item : Read Value) (cs : List Char) :
    Option (List (Path × Value) × List Char) :=
  match pair? item cs with
  | none => none
  | some (p, r) =>
    match skipSpace r with
    | '\x7d' :: r => some ([p], r)
    | ',' :: r =>
      if _shorter : r.length < cs.length then
        (inlinePairs? item r).map fun (ps, r) => (p :: ps, r)
      else none
    | _ => none
termination_by cs.length

/-- The table that the pairs of an inline table make. -/
def inlineTable? (pairs : List (Path × Value)) : Option Value :=
  (Table.fill pairs {}).map fun t => .table (entryValues t.entries)

/-- A value without items of its own. -/
def plainValue? (cs : List Char) : Option (Value × List Char) :=
  match cs with
  | '"' :: _ => (quoted? cs).map fun (s, r) => (.string (String.ofList s), r)
  | '\'' :: _ => (quoted? cs).map fun (s, r) => (.string (String.ofList s), r)
  | _ => (scalar? (word cs).1).map (·, (word cs).2)

/-- A value in which at most `depth` arrays and inline tables are nested. -/
def value? : Nat → List Char → Option (Value × List Char)
  | 0, cs => plainValue? cs
  | depth + 1, '[' :: r =>
    (arrayItems? (value? depth) r).map fun (vs, r) => (.array vs, r)
  | depth + 1, '\x7b' :: r =>
    match skipSpace r with
    | '\x7d' :: r => some (.table [], r)
    | _ => do
      let (pairs, r) ← inlinePairs? (value? depth) r
      let v ← inlineTable? pairs
      pure (v, r)
  | _ + 1, cs => plainValue? cs

/-! ### Lines -/

/-- A header and the rest of its line. -/
def header? : List Char → Option (Statement × List Char)
  | '[' :: '[' :: r => do
    let (path, r) ← key? r
    match r with
    | ']' :: ']' :: r => pure (.element path, ← lineEnd? r)
    | _ => none
  | '[' :: r => do
    let (path, r) ← key? r
    match r with
    | ']' :: r => pure (.table path, ← lineEnd? r)
    | _ => none
  | _ => none

/-- A line of a document: its statement, if it has one. -/
def line? (cs : List Char) : Option (Option Statement × List Char) :=
  match skipSpace cs with
  | [] => some (none, [])
  | '#' :: r => (lineEnd? ('#' :: r)).map (none, ·)
  | '\n' :: r => some (none, r)
  | '\r' :: r => (lineEnd? ('\r' :: r)).map (none, ·)
  | '[' :: r => (header? ('[' :: r)).map fun (s, r) => (some s, r)
  | r => do
    let ((path, v), r) ← pair? (value? depthLimit) r
    pure (some (.pair path v), ← lineEnd? r)

/-- The statements of the lines. -/
def lines? (cs : List Char) : Option (List Statement) :=
  if cs = [] then some []
  else
    match line? cs with
    | none => none
    | some (s, r) =>
      if _shorter : r.length < cs.length then
        (lines? r).map (s.toList ++ ·)
      else none
termination_by cs.length

/-- The statements of a document; a byte order mark in front is skipped. -/
def statements? : List Char → Option (List Statement)
  | '\uFEFF' :: cs => lines? cs
  | cs => lines? cs

/-- The entries of a document. -/
def read? (text : String) : Option (List (String × Value)) :=
  (statements? text.toList).bind tableOf?

end MediaGraph.Toml

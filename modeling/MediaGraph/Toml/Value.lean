/-
Values and statements of TOML documents.

* `Value`: what stands to the right of an equals sign. Numbers with a fraction
  and dates are kept as they are written.
* `Statement`: a key with its value, or the header of a table.
-/

namespace MediaGraph.Toml

/-- A value. -/
inductive Value where
  | string (text : String)
  | integer (value : Int)
  | float (literal : String)
  | boolean (value : Bool)
  | datetime (literal : String)
  | array (items : List Value)
  | table (entries : List (String × Value))

/-- A path of keys that were joined by dots. -/
abbrev Path := List String

/-- A line of a document, blank lines and comments apart. -/
inductive Statement where
  /-- A key path and its value. -/
  | pair (path : Path) (value : Value)
  /-- The header of a table. -/
  | table (path : Path)
  /-- The header of one more table of an array. -/
  | element (path : Path)

end MediaGraph.Toml

/-
Writing TOML documents.

* `writeKey`: a key, with quotes if it needs them.
* `Value.write`: a value; an array of two items or more has a line for each.
* `Statement.write`: a line; a blank line stands before each header.
* `write`: a document.
-/
import MediaGraph.Toml.Reader

namespace MediaGraph.Toml

/-- A key, with quotes if it needs them. -/
def writeKey (key : String) : List Char :=
  let cs := key.toList
  if cs ≠ [] ∧ cs.all isBare then cs else quote cs

/-- Keys joined by dots. -/
def writePath (path : Path) : List Char :=
  ['.'].intercalate (path.map writeKey)

/-- An integer. -/
def writeInteger : Int → List Char
  | .ofNat n => Text.digitsOf n
  | .negSucc n => '-' :: Text.digitsOf (n + 1)

mutual

/-- A value. -/
def Value.write : Value → List Char
  | .string text => quote text.toList
  | .integer n => writeInteger n
  | .float literal => literal.toList
  | .boolean b => if b then ['t', 'r', 'u', 'e'] else ['f', 'a', 'l', 's', 'e']
  | .datetime literal => literal.toList
  | .array [] => ['[', ']']
  | .array [v] => '[' :: v.write ++ [']']
  | .array (v :: w :: vs) =>
    '[' :: (writeItem v.write ++ writeItem w.write ++ writeItems vs) ++
      ['\n', ']']
  | .table [] => ['\x7b', '\x7d']
  | .table ((key, v) :: entries) =>
    ['\x7b', ' '] ++ writeEntry key v.write ++ writeEntries entries ++
      [' ', '\x7d']

/-- The items of an array, each on a line of its own. -/
def writeItems : List Value → List Char
  | [] => []
  | v :: vs => writeItem v.write ++ writeItems vs

/-- Further entries of an inline table. -/
def writeEntries : List (String × Value) → List Char
  | [] => []
  | (key, v) :: entries =>
    [',', ' '] ++ writeEntry key v.write ++ writeEntries entries

/-- An item of an array on a line of its own. -/
def writeItem (item : List Char) : List Char :=
  ['\n', ' ', ' ', ' ', ' '] ++ item ++ [',']

/-- An entry of an inline table. -/
def writeEntry (key : String) (value : List Char) : List Char :=
  writeKey key ++ [' ', '=', ' '] ++ value

end

/-- A line of a document. -/
def Statement.write : Statement → List Char
  | .pair path v => writePath path ++ [' ', '=', ' '] ++ v.write ++ ['\n']
  | .table path => ['\n', '['] ++ writePath path ++ [']', '\n']
  | .element path => ['\n', '[', '['] ++ writePath path ++ [']', ']', '\n']

/-- A document. -/
def write (statements : List Statement) : String :=
  String.ofList (statements.flatMap Statement.write)

end MediaGraph.Toml

/-
JSON documents as they are printed, one item to a line.

* `Json`: a value; the fields of an object have an order.
* `Json.text`: the document, indented by two blanks for each level.
-/

namespace MediaGraph.CommandLine

/-- A JSON value. -/
inductive Json where
  | null
  | boolean (value : Bool)
  | number (value : Nat)
  | string (text : String)
  | array (items : List Json)
  | object (fields : List (String × Json))

namespace Json

/-- A hexadecimal digit in lower case. -/
def hexDigit (n : Nat) : Char :=
  if n < 10 then Char.ofNat ('0'.toNat + n) else Char.ofNat ('a'.toNat + n - 10)

/-- A character within a string. -/
def escaped (c : Char) : List Char :=
  if c = '"' then ['\\', '"']
  else if c = '\\' then ['\\', '\\']
  else if c = '\x08' then ['\\', 'b']
  else if c = '\x0c' then ['\\', 'f']
  else if c = '\n' then ['\\', 'n']
  else if c = '\r' then ['\\', 'r']
  else if c = '\t' then ['\\', 't']
  else if c.toNat < 0x20 then
    ['\\', 'u', '0', '0', hexDigit (c.toNat / 16), hexDigit (c.toNat % 16)]
  else [c]

/-- A string between quotation marks. -/
def quoted (s : String) : String :=
  String.ofList ('"' :: s.toList.flatMap escaped ++ ['"'])

/-- The start of a line at a level. -/
def newLine (level : Nat) : String := "".pushn ' ' (2 * level) |> ("\n" ++ ·)

mutual

/-- The text of a value at a level. -/
def textAt (level : Nat) : Json → String
  | null => "null"
  | boolean b => if b then "true" else "false"
  | number n => toString n
  | string s => quoted s
  | array [] => "[]"
  | array (v :: vs) =>
    "[" ++ newLine (level + 1) ++ textAt (level + 1) v ++
      itemsAt (level + 1) vs ++ newLine level ++ "]"
  | object [] => "\x7b\x7d"
  | object ((key, v) :: fields) =>
    "\x7b" ++ newLine (level + 1) ++ quoted key ++ ": " ++
      textAt (level + 1) v ++ fieldsAt (level + 1) fields ++
      newLine level ++ "\x7d"

/-- Further items of an array. -/
def itemsAt (level : Nat) : List Json → String
  | [] => ""
  | v :: vs => "," ++ newLine level ++ textAt level v ++ itemsAt level vs

/-- Further fields of an object. -/
def fieldsAt (level : Nat) : List (String × Json) → String
  | [] => ""
  | (key, v) :: fields =>
    "," ++ newLine level ++ quoted key ++ ": " ++ textAt level v ++
      fieldsAt level fields

end

/-- The text of a value. -/
def text (v : Json) : String := v.textAt 0

/-- An optional value; the missing one is `null`. -/
def ofOption {α : Type} (f : α → Json) : Option α → Json
  | some a => f a
  | none => null

end Json

end MediaGraph.CommandLine

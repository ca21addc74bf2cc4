/-
Descriptions as TOML documents.

* `Description.toStatements`, `Description.toToml`: the document of a
  description. Settings that have their default are left out; an empty list is
  written as such.
* `Description.ofValue?`, `Description.ofToml?`: the description of a
  document. Keys without a meaning are passed over. A record may also be
  written as an array of its fields, and a word as a table that holds an empty
  table or array under that word.
-/
import MediaGraph.Description.Basic
import MediaGraph.Toml.Writer

namespace MediaGraph

open Toml (Statement Value)

/-! ### Writing -/

/-- A number as a value. -/
def numberValue (n : Nat) : Value := .integer n

/-- The line of a setting, if it is set. -/
def settingLine (key : String) (value : Option Value) : List Statement :=
  (value.map fun v => Statement.pair [key] v).toList

/-- The line of a switch, if it is on. -/
def switchLine (key : String) (on : Bool) : List Statement :=
  if on then [.pair [key] (.boolean true)] else []

/-- The section of a node. -/
def NodeSpec.toStatements (n : NodeSpec) : List Statement :=
  [.element ["nodes"], .pair ["name"] (.string n.name),
    .pair ["kind"] (.string n.kind.text)] ++
  settingLine "inputs" (n.inputs.map numberValue) ++
  settingLine "buffers" (n.buffers.map numberValue) ++
  switchLine "async" n.async ++
  settingLine "required_in" (n.requiredIn.map numberValue) ++
  if n.optionalInputs.isEmpty then []
  else [.pair ["optional_inputs"] (.array (n.optionalInputs.map numberValue))]

/-- The section of a link. -/
def LinkSpec.toStatements (l : LinkSpec) : List Statement :=
  [.element ["links"], .pair ["from"] (.string l.source),
    .pair ["to"] (.string l.target)]

/-- The section of a step. -/
def StepSpec.toStatements (s : StepSpec) : List Statement :=
  [.element ["activations"], .pair ["mode"] (.string s.mode.text),
    .pair ["node"] (.string s.node), .pair ["repeat"] (numberValue s.times)]

/-- The line of an empty list. -/
def emptyLine {α : Type} (key : String) (items : List α) : List Statement :=
  if items.isEmpty then [.pair [key] (.array [])] else []

namespace Description

/-- The document of a description. -/
def toStatements (d : Description) : List Statement :=
  [.pair ["name"] (.string d.name)] ++
  settingLine "description" (d.summary.map .string) ++
  switchLine "allow_cycles" d.allowCycles ++
  emptyLine "nodes" d.nodes ++
  emptyLine "links" d.links ++
  emptyLine "activations" d.script ++
  d.nodes.flatMap NodeSpec.toStatements ++
  d.links.flatMap LinkSpec.toStatements ++
  d.script.flatMap StepSpec.toStatements

/-- The text of a description. -/
def toToml (d : Description) : String := Toml.write d.toStatements

end Description

/-! ### Reading -/

/-- A field of a record: under its key in a table, at its place in an
array. -/
def fieldOf? (record : Value) (place : Nat) (key : String) : Option Value :=
  match record with
  | .table entries => entries.lookup key
  | .array items => items[place]?
  | _ => none

/-- A text. -/
def textOf? : Value → Option String
  | .string text => some text
  | _ => none

/-- A switch. -/
def switchOf? : Value → Option Bool
  | .boolean b => some b
  | _ => none

/-- A number of 32 bits. -/
def numberOf? : Value → Option Nat
  | .integer n =>
    if 0 ≤ n ∧ n < Text.bound32 then some n.toNat else none
  | _ => none

/-- One of a few words. -/
def wordOf? : Value → Option String
  | .string text => some text
  | .table [(word, .table [])] => some word
  | .table [(word, .array [])] => some word
  | _ => none

/-- The items of a list. -/
def listOf? {α : Type} (item : Value → Option α) : Value → Option (List α)
  | .array items => items.mapM item
  | _ => none

/-- A field that must be there. -/
def required {α : Type} (read : Value → Option α) (field : Option Value) :
    Option α :=
  field.bind read

/-- A field that has a default. -/
def defaulted {α : Type} (read : Value → Option α) (default : α)
    (field : Option Value) : Option α :=
  match field with
  | none => some default
  | some v => read v

/-- A setting, which may be missing. -/
def setting {α : Type} (read : Value → Option α) (field : Option Value) :
    Option (Option α) :=
  defaulted (fun v => (read v).map some) none field

/-- The kind of a word. -/
def NodeKind.ofValue? (v : Value) : Option NodeKind :=
  (wordOf? v).bind fun word => NodeKind.all.find? (·.text = word)

/-- The mode of a word. -/
def Mode.ofValue? (v : Value) : Option Mode :=
  (wordOf? v).bind fun word => [Mode.pull, Mode.push].find? (·.text = word)

/-- A node of a document. -/
def NodeSpec.ofValue? (v : Value) : Option NodeSpec := do
  let name ← required textOf? (fieldOf? v 0 "name")
  let kind ← required NodeKind.ofValue? (fieldOf? v 1 "kind")
  let inputs ← setting numberOf? (fieldOf? v 2 "inputs")
  let buffers ← setting numberOf? (fieldOf? v 3 "buffers")
  let async ← defaulted switchOf? false (fieldOf? v 4 "async")
  let requiredIn ← setting numberOf? (fieldOf? v 5 "required_in")
  let optionalInputs ←
    defaulted (listOf? numberOf?) [] (fieldOf? v 6 "optional_inputs")
  pure { name, kind, inputs, buffers, async, requiredIn, optionalInputs }

/-- A link of a document. -/
def LinkSpec.ofValue? (v : Value) : Option LinkSpec := do
  let source ← required textOf? (fieldOf? v 0 "from")
  let target ← required textOf? (fieldOf? v 1 "to")
  pure { source, target }

/-- A step of a document. -/
def StepSpec.ofValue? (v : Value) : Option StepSpec := do
  let mode ← required Mode.ofValue? (fieldOf? v 0 "mode")
  let node ← required textOf? (fieldOf? v 1 "node")
  let times ← defaulted numberOf? 1 (fieldOf? v 2 "repeat")
  pure { mode, node, times }

namespace Description

/-- The description that the entries of a document make. -/
def ofValue? (v : Value) : Option Description := do
  let name ← required textOf? (fieldOf? v 0 "name")
  let summary ← setting textOf? (fieldOf? v 1 "description")
  let allowCycles ← defaulted switchOf? false (fieldOf? v 2 "allow_cycles")
  let nodes ← defaulted (listOf? NodeSpec.ofValue?) [] (fieldOf? v 3 "nodes")
  let links ← defaulted (listOf? LinkSpec.ofValue?) [] (fieldOf? v 4 "links")
  let script ←
    defaulted (listOf? StepSpec.ofValue?) [] (fieldOf? v 5 "activations")
  pure { name, summary, allowCycles, nodes, links, script }

/-- The description of a text. -/
def ofToml? (text : String) : Option Description :=
  (Toml.read? text).bind fun entries => ofValue? (.table entries)

end Description

end MediaGraph

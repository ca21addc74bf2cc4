/-
What the commands report about a graph.

* `NodeReport`, `PortReport`: a node of an assembly and its ports.
* `GraphReport.of`: the report on a description and its assembly.
* `GraphReport.lines`, `GraphReport.json`: the report in two forms.
* `summaryLines`: the tallies after a run.
-/
import MediaGraph.Assembly
import MediaGraph.CommandLine.Json

namespace MediaGraph.CommandLine

open Text (padLeft padRight)

/-- A port of an assembly. -/
structure PortReport where
  id : PortId
  optional : Bool
  peer : Option PortId

/-- A node of an assembly. -/
structure NodeReport where
  name : String
  id : NodeId
  kind : String
  requiredIn : Nat
  async : Bool
  inputs : List PortReport
  outputs : List PortReport

/-- A description together with its assembly. -/
structure GraphReport where
  name : String
  summary : Option String
  nodes : List NodeReport
  links : List LinkSpec
  script : List Step

/-- The reports on ports. -/
def portReports {σ : Type} (g : Graph σ) (ports : Array PortId) :
    List PortReport :=
  ports.toList.filterMap fun p => (g.ports.get? p).map fun port =>
    { id := p, optional := port.flags.optional, peer := port.peer? }

/-- The report on a node. -/
def NodeReport.of {σ : Type} [Processor σ] (g : Graph σ) (name : String)
    (n : NodeId) : NodeReport :=
  match g.nodes.get? n with
  | some node =>
    { name
      id := n
      kind := Processor.name node.processor
      requiredIn := node.requiredIn
      async := node.flags.async
      inputs := portReports g node.inputs
      outputs := portReports g node.outputs }
  | none =>
    { name, id := n, kind := "?", requiredIn := 0, async := false
      inputs := [], outputs := [] }

namespace GraphReport

/-- The report on a description and its assembly. -/
def of {τ : Type} [Processor τ] (d : Description) (a : Assembly τ) :
    GraphReport where
  name := d.name
  summary := d.summary
  nodes := a.nodes.map fun (name, n) => NodeReport.of a.graph name n
  links := d.links
  script := a.script

/-! ### As text -/

/-- What is special about a node, between parentheses. -/
def notes (n : NodeReport) : String :=
  let optional := n.inputs.countP (·.optional)
  let notes := (if n.async then ["async"] else []) ++
    if optional = 0 then [] else [s!"{optional} optional"]
  if notes.isEmpty then "" else " (" ++ ", ".intercalate notes ++ ")"

/-- The line of a node. -/
def nodeLine (n : NodeReport) : String :=
  s!"  [{n.id.index}] {padRight 16 n.name} {padRight 8 n.kind} " ++
    s!"in {n.inputs.length} out {n.outputs.length} " ++
    s!"required {n.requiredIn}{notes n}"

/-- The line of a step. -/
def stepLine (s : Step) : String :=
  s!"  {s.mode.text} {s.name} x{s.times}"

/-- Lines, or a line that says that there are none. -/
def orNone (lines : List String) : List String :=
  if lines.isEmpty then ["  (none)"] else lines

/-- The lines of a report. -/
def lines (r : GraphReport) : List String :=
  [s!"Graph: {r.name}", "".pushn '=' (7 + r.name.utf8ByteSize)] ++
  r.summary.toList ++
  ["", "Nodes:"] ++ r.nodes.map nodeLine ++
  ["", "Links:"] ++
  orNone (r.links.map fun l => s!"  {l.source} -> {l.target}") ++
  ["", "Activations:"] ++ orNone (r.script.map stepLine)

/-! ### As JSON -/

/-- A port as JSON. -/
def portJson (p : PortReport) : Json :=
  .object [("id", .number p.id.index), ("optional", .boolean p.optional),
    ("peer", .ofOption (fun q => .number q.index) p.peer)]

/-- A node as JSON. -/
def nodeJson (n : NodeReport) : Json :=
  .object [("name", .string n.name), ("id", .number n.id.index),
    ("kind", .string n.kind), ("required_in", .number n.requiredIn),
    ("async", .boolean n.async),
    ("inputs", .array (n.inputs.map portJson)),
    ("outputs", .array (n.outputs.map portJson))]

/-- A report as JSON. -/
def json (r : GraphReport) : Json :=
  .object [("name", .string r.name),
    ("description", .ofOption .string r.summary),
    ("nodes", .array (r.nodes.map nodeJson)),
    ("links", .array (r.links.map fun l =>
      .object [("from", .string l.source), ("to", .string l.target)])),
    ("activations", .array (r.script.map fun s =>
      .object [("mode", .string s.mode.text), ("node", .string s.name),
        ("repeat", .number s.times)]))]

end GraphReport

/-! ### After a run -/

/-- The line of a sink. -/
def sinkLine (name : String) (t : Sink) : String :=
  s!"  {padRight 16 name} received {padLeft 6 (toString t.received)}" ++
    match t.last with
    | some b => s!" (last buffer {b.index})"
    | none => ""

/-- A line of the table of calls. -/
def tableLine (name kind input output : String) : String :=
  s!"  {padRight 16 name} {padRight 8 kind} " ++
    s!"{padLeft 8 input} {padLeft 8 output}"

/-- The line of a node with the numbers of its calls. -/
def callsLine {σ : Type} [Processor σ] (g : Graph σ) (name : String)
    (n : NodeId) : String :=
  match g.nodes.get? n with
  | some node => tableLine name (Processor.name node.processor)
      (toString node.inputCalls) (toString node.outputCalls)
  | none => tableLine name "?" "0" "0"

/-- The lines on the state of an assembly after a run. -/
def summaryLines {τ : Type} [Processor τ] (a : Assembly τ) : List String :=
  let stats := a.graph.stats
  ["", "Sinks:"] ++ a.sinks.map (fun (name, t) => sinkLine name t) ++
  ["", "Callbacks:",
    tableLine "node" "kind" "input" "output"] ++
  a.nodes.map (fun (name, n) => callsLine a.graph name n) ++
  ["", s!"Last activation: {stats.dispatches} dispatches, " ++
    s!"{stats.inputCalls} input calls, {stats.outputCalls} output calls"]

end MediaGraph.CommandLine

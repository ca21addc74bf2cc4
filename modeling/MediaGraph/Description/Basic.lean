/-
Descriptions of graphs.

* `NodeSpec`, `LinkSpec`, `StepSpec`: a node, a link and a step of the script.
* `Description`: a named graph with its links and the activations to perform.
* `NodeSpec.inputCount`, `NodeSpec.outputCount`: the ports that a node of each
  kind has.
* `Description.total`: how many activations the script performs.
-/
import MediaGraph.Description.PortRef
import MediaGraph.Graph.Activation

namespace MediaGraph

/-! ### Nodes -/

/-- The kinds of processor that a description can ask for. -/
inductive NodeKind where
  /-- One output; produces on request. -/
  | source
  /-- One input; consumes and counts. -/
  | sink
  /-- Any number of inputs, folded into one output. -/
  | mixer
deriving DecidableEq, Repr

/-- The word for a kind. -/
def NodeKind.text : NodeKind → String
  | .source => "source"
  | .sink => "sink"
  | .mixer => "mixer"

/-- The kinds, in the order of the documentation. -/
def NodeKind.all : List NodeKind := [.source, .sink, .mixer]

/-- A node of a description. A setting that is `none` has its default. -/
@[ext]
structure NodeSpec where
  name : String
  kind : NodeKind
  /-- Number of inputs, for mixers. -/
  inputs : Option Nat := none
  /-- Size of the buffer pool, for sources and mixers. -/
  buffers : Option Nat := none
  async : Bool := false
  /-- Number of counted inputs that let the node run. -/
  requiredIn : Option Nat := none
  /-- Places of the inputs that the node does not wait for. -/
  optionalInputs : List Nat := []
deriving DecidableEq, Repr

namespace NodeSpec

/-- Size of a pool that no description sets. -/
def defaultBuffers : Nat := 4

/-- Number of inputs of a mixer that no description sets. -/
def defaultInputs : Nat := 2

/-- Number of inputs. -/
def inputCount (n : NodeSpec) : Nat :=
  match n.kind with
  | .source => 0
  | .sink => 1
  | .mixer => n.inputs.getD defaultInputs

/-- Number of outputs. -/
def outputCount (n : NodeSpec) : Nat :=
  match n.kind with
  | .source => 1
  | .sink => 0
  | .mixer => 1

/-- Number of ports of one direction. -/
def portCount (n : NodeSpec) : Direction → Nat
  | .input => n.inputCount
  | .output => n.outputCount

/-- Size of the buffer pool. -/
def bufferCount (n : NodeSpec) : Nat := n.buffers.getD defaultBuffers

/-- Whether an input is flagged optional. -/
def isOptional (n : NodeSpec) (i : Nat) : Bool := n.optionalInputs.contains i

/-- Flags an input optional, unless it is already. -/
def withOptional (n : NodeSpec) (i : Nat) : NodeSpec :=
  if n.isOptional i then n
  else { n with optionalInputs := n.optionalInputs ++ [i] }

end NodeSpec

/-! ### Links and steps -/

/-- A link, by references to its two ports. -/
@[ext]
structure LinkSpec where
  source : String
  target : String
deriving DecidableEq, Repr

namespace LinkSpec

/-- The port that produces. -/
def source? (l : LinkSpec) : Option PortRef := PortRef.parse? l.source

/-- The port that consumes. -/
def target? (l : LinkSpec) : Option PortRef := PortRef.parse? l.target

end LinkSpec

/-- A step of the script: activate a node a number of times in a row. -/
@[ext]
structure StepSpec where
  mode : Mode
  node : String
  times : Nat := 1
deriving DecidableEq, Repr

/-! ### Descriptions -/

/-- A graph with its script. -/
@[ext]
structure Description where
  name : String
  summary : Option String := none
  /-- Links may close a cycle. -/
  allowCycles : Bool := false
  nodes : List NodeSpec := []
  links : List LinkSpec := []
  script : List StepSpec := []
deriving DecidableEq, Repr

namespace Description

/-- The first node of a name. -/
def node? (d : Description) (name : String) : Option NodeSpec :=
  d.nodes.find? (·.name = name)

/-- How many activations the script performs. -/
def total (d : Description) : Nat :=
  d.script.foldr (fun step n => step.times + n) 0

end Description

end MediaGraph

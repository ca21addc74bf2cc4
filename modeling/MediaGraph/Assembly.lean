/-
Assemblies: runnable graphs built from descriptions.

An assembly knows the names of its nodes, the tallies of its sinks and the
script of its description. The caller may add nodes with processors of its
own, with states of type `τ`.

* `BuildError`: why a description cannot be built.
* `Assembly.build`: the graph of a description, every sink of which asks for
  data, and its script with names resolved.
* `Assembly.activate`, `Assembly.runScript`: one activation, and the script.
* `Assembly.sinks`: the tallies of the sinks, of removed ones too.
-/
import MediaGraph.Adapter
import MediaGraph.Description.Validation
import MediaGraph.Graph.Edit

namespace MediaGraph

/-- Why a description cannot be built. -/
inductive BuildError where
  | invalid (flaws : Flaws)
  | graph (error : GraphError)
deriving DecidableEq, Repr

/-- The text of a failed build. -/
def BuildError.message : BuildError → String
  | invalid flaws => s!"validation failed: {flaws.message}"
  | graph e => s!"graph construction failed: {e.message}"

/-- A step of the script whose node is known. -/
structure Step where
  mode : Mode
  node : NodeId
  name : String
  times : Nat
deriving DecidableEq, Repr

/-- A graph built from a description. -/
structure Assembly (τ : Type) where
  name : String
  graph : Graph (Adapter τ)
  /-- The nodes of the description, in its order. -/
  nodes : List (String × NodeId) := []
  /-- The sinks of the description, in its order. -/
  sinkNodes : List (String × NodeId) := []
  script : List Step := []
  /-- The tallies of sinks that were removed from the graph. -/
  retired : List (NodeId × Sink) := []

namespace Assembly

variable {τ : Type}

/-! ### Names -/

/-- The node of a name. -/
def nodeId? (a : Assembly τ) (name : String) : Option NodeId :=
  a.nodes.lookup name

/-- The name of a node. -/
def nodeName? (a : Assembly τ) (n : NodeId) : Option String :=
  (a.nodes.find? (·.2 = n)).map (·.1)

/-! ### Building -/

/-- The processor that a description asks for. -/
def processorOf (spec : NodeSpec) : Adapter τ :=
  match spec.kind with
  | .source => .source (.ofBuffers spec.bufferCount)
  | .mixer => .mixer (.ofBuffers spec.bufferCount)
  | .sink => .sink {}

/-- Adds a node with its ports and settings. -/
def addSpec (spec : NodeSpec) : Edit (Adapter τ) NodeId := do
  let n ← Graph.addNode (processorOf spec)
  (List.range spec.inputCount).forM fun i => do
    discard <| Graph.addPort n .input ⟨spec.isOptional i⟩
  (List.range spec.outputCount).forM fun _ => do
    discard <| Graph.addPort n .output {}
  if spec.async then Graph.setFlags n ⟨true⟩
  match spec.requiredIn with
  | some k => Graph.setRequiredIn n k
  | none => pure ()
  pure n

/-- Adds the nodes of a description, and gives their names with their
handles. -/
def addSpecs (specs : List NodeSpec) :
    Edit (Adapter τ) (List (String × NodeId)) :=
  specs.mapM fun spec => do
    let n ← addSpec spec
    pure (spec.name, n)

/-- The port that a reference stands for. The nodes keep the numbers of their
ports in 32 bits, so that past the bound an earlier port is found. -/
def resolve (a : Assembly τ) (direction : Direction) (reference : String) :
    Except Flaw PortId :=
  match PortRef.parse? reference with
  | none => .error (.invalidPortRef reference)
  | some r =>
    match a.nodeId? r.node with
    | none => .error (.unknownNode r.node)
    | some n =>
      let ports := (a.graph.nodes.get? n).elim #[] (·.portsOf direction)
      match ports[r.index]? with
      | some p => .ok p.wrapped
      | none =>
        .error (.portOutOfRange r.node direction r.index ports.size)

/-- Carries out an action on the graph. -/
def edit {α : Type} (a : Assembly τ) (action : Edit (Adapter τ) α) :
    Except BuildError (α × Assembly τ) :=
  match action.run a.graph with
  | (.ok x, graph) => .ok (x, { a with graph })
  | (.error e, _) => .error (.graph e)

/-- A flaw that was found only while building. -/
def flawed {α : Type} : Except Flaw α → Except BuildError α
  | .ok x => .ok x
  | .error flaw => .error (.invalid { first := flaw })

/-- Links the two ports of a link. -/
def connect (a : Assembly τ) (l : LinkSpec) :
    Except BuildError (Assembly τ) := do
  let output ← flawed (a.resolve .output l.source)
  let input ← flawed (a.resolve .input l.target)
  let (_, a) ← a.edit (Graph.link output input)
  pure a

/-- Makes a linked sink ask for data. -/
def prime (graph : Graph (Adapter τ)) (n : NodeId) : Graph (Adapter τ) :=
  match (graph.nodes.get? n).bind (·.inputs[0]?) with
  | some p => graph.modifySlotOf p Slot.request
  | none => graph

/-- The nodes whose name stands for a sink of the description. -/
def sinksOf (d : Description) (nodes : List (String × NodeId)) :
    List (String × NodeId) :=
  nodes.filter fun (name, _) => (d.node? name).any (·.kind = .sink)

/-- A step with the handle of its node. -/
def resolveStep (a : Assembly τ) (step : StepSpec) : Except BuildError Step :=
  match a.nodeId? step.node with
  | some node => .ok ⟨step.mode, node, step.node, step.times⟩
  | none => .error (.invalid { first := .unknownNode step.node })

/-- Builds the graph of a description. Every sink asks for data from the
start, so that a pull on it reaches its producers right away.

Links that fit together although their ports share numbers with others would
make a graph that is not one of a description any more. Such a graph is
refused: its first port without a number of its own is not found. -/
def build (d : Description) : Except BuildError (Assembly τ) := do
  match d.validate with
  | .error flaws => throw (.invalid flaws)
  | .ok () =>
  let bare : Assembly τ := { name := d.name, graph := .empty }
  let (nodes, peopled) ← bare.edit (addSpecs d.nodes)
  let sinkNodes := sinksOf d nodes
  let wired : Assembly τ ←
    d.links.foldlM connect { peopled with nodes, sinkNodes }
  if Handle.bound < wired.graph.ports.size then
    throw (.graph (.portNotFound ⟨Handle.bound⟩))
  let graph := (sinkNodes.map Prod.snd).foldl prime wired.graph
  let primed := { wired with graph }
  let script ← d.script.mapM primed.resolveStep
  pure { primed with script }

/-! ### Tallies -/

/-- The tally of a sink, by its node. -/
def tally? (a : Assembly τ) (n : NodeId) : Option Sink :=
  match a.graph.nodes.get? n with
  | some node => node.processor.sink?
  | none => a.retired.lookup n

/-- The sinks of the description with their tallies, in its order. -/
def sinks (a : Assembly τ) : List (String × Sink) :=
  a.sinkNodes.filterMap fun (name, n) => (a.tally? n).map (name, ·)

/-- The tally of the sink of a name. -/
def tallyOf? (a : Assembly τ) (name : String) : Option Sink :=
  a.sinks.lookup name

/-- Removes a node; the tally of a sink stays readable. -/
def removeNode (a : Assembly τ) (n : NodeId) :
    Except GraphError (Adapter τ) × Assembly τ :=
  match (Graph.removeNode n).run a.graph with
  | (.error e, graph) => (.error e, { a with graph })
  | (.ok p, graph) =>
    (.ok p, { a with
      graph
      retired := match p.sink? with
        | some t => (n, t) :: a.retired
        | none => a.retired })

/-! ### Activations -/

/-- How many activations the script performs. -/
def total (a : Assembly τ) : Nat :=
  a.script.foldr (fun step n => step.times + n) 0

variable [Processor τ]

/-- Activates a node of the graph. -/
def activate (a : Assembly τ) (mode : Mode) (n : NodeId) :
    Activation (Adapter τ) :=
  match mode with
  | .pull => a.graph.pull n
  | .push => a.graph.push n

/-- A script under way: the assembly, what its observer made of the progress
so far, the number of activations that completed, the calls made, the latest
one first, and the error that stopped it. -/
structure ScriptRun (τ β : Type) where
  assembly : Assembly τ
  progress : β
  done : Nat := 0
  calls : List Callback := []
  failure : Option ActivationError := none

namespace ScriptRun

variable {β : Type}

/-- One more activation. A completed one is reported to the observer. -/
def advance (report : β → Nat → β) (mode : Mode) (n : NodeId)
    (r : ScriptRun τ β) : ScriptRun τ β :=
  let a := r.assembly.activate mode n
  let r := { r with
    assembly := { r.assembly with graph := a.graph }
    calls := a.callbacks.reverse ++ r.calls }
  match a.result with
  | .ok () => { r with
      done := r.done + 1
      progress := report r.progress (r.done + 1) }
  | .error e => { r with failure := some e }

/-- The same activation a number of times, until one fails. -/
def advanceTimes (report : β → Nat → β) (mode : Mode) (n : NodeId) :
    Nat → ScriptRun τ β → ScriptRun τ β
  | 0, r => r
  | k + 1, r =>
    let r := r.advance report mode n
    if r.failure.isSome then r else advanceTimes report mode n k r

/-- Step after step, until an activation fails. -/
def advanceAll (report : β → Nat → β) :
    List Step → ScriptRun τ β → ScriptRun τ β
  | [], r => r
  | s :: rest, r =>
    let r := advanceTimes report s.mode s.node s.times r
    if r.failure.isSome then r else advanceAll report rest r

/-- The number of activations performed, or the error that stopped the
script. -/
def result (r : ScriptRun τ β) : Except ActivationError Nat :=
  match r.failure with
  | none => .ok r.done
  | some e => .error e

end ScriptRun

/-- Runs the whole script. After each completed activation `report` is told
how many there were. -/
def runScript {β : Type} (a : Assembly τ) (report : β → Nat → β)
    (progress : β) : ScriptRun τ β :=
  ScriptRun.advanceAll report a.script { assembly := a, progress }

end Assembly

end MediaGraph

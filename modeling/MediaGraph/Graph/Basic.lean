/-
Graphs: nodes, their ports, the links between ports, and the ready queue.

* `Graph`: the three arenas, the queue, the driver of the activation in
  progress and the counters of the latest activation.
* `GraphError`: why a change of the structure is refused.
* `Graph.slotOf?`, `Graph.peer?`, `Graph.view`: what a port or a node sees.
* `Graph.canReach`: whether data of one node can flow to another.
-/
import MediaGraph.Node
import MediaGraph.Reachability
import MediaGraph.ReadyQueue

namespace MediaGraph

/-! ### Texts of handles -/

/-- The text of a handle in messages. -/
def Handle.text : {kind : Kind} → Handle kind → String
  | .node, h => s!"NodeId({h.index})"
  | .port, h => s!"PortId({h.index})"
  | .slot, h => s!"SlotId({h.index})"

/-! ### Refusals -/

/-- Why a change of the structure is refused. -/
inductive GraphError where
  | nodeNotFound (node : NodeId)
  | portNotFound (port : PortId)
  | directionMismatch (port : PortId)
  | alreadyLinked (port : PortId)
  | notLinked (output input : PortId)
  | sameNode (node : NodeId)
  /-- The number of required inputs of the node has reached its largest
  value. -/
  | tooManyRequired (node : NodeId)
deriving DecidableEq, Repr

/-- The text of a refusal. -/
def GraphError.message : GraphError → String
  | .nodeNotFound n => s!"node {n.text} not found"
  | .portNotFound p => s!"port {p.text} not found"
  | .directionMismatch p => s!"port {p.text} has the wrong direction"
  | .alreadyLinked p => s!"port {p.text} is already linked"
  | .notLinked o i => s!"ports {o.text} and {i.text} are not linked"
  | .sameNode n => s!"cannot link node {n.text} to itself"
  | .tooManyRequired n => s!"node {n.text} requires too many inputs"

/-! ### Graphs -/

/-- What one activation did. -/
@[ext]
structure ActivationStats where
  /-- Nodes whose turn came. -/
  dispatches : Nat := 0
  /-- Calls that processed inputs. -/
  inputCalls : Nat := 0
  /-- Calls that asked for output. -/
  outputCalls : Nat := 0
deriving DecidableEq, Repr

/-- A graph of nodes whose processors have states of type `σ`. -/
structure Graph (σ : Type) where
  nodes : Arena .node (Node σ) := .empty
  ports : Arena .port Port := .empty
  slots : Arena .slot Slot := .empty
  ready : ReadyQueue := {}
  /-- The node that started the activation in progress. -/
  driver : Option NodeId := none
  stats : ActivationStats := {}
deriving DecidableEq, Repr

namespace Graph

variable {σ : Type}

/-- The graph without nodes. -/
def empty : Graph σ := {}

/-- Changes a live node. -/
def modifyNode (g : Graph σ) (n : NodeId) (f : Node σ → Node σ) : Graph σ :=
  { g with nodes := g.nodes.modify n f }

/-- Changes a live port. -/
def modifyPort (g : Graph σ) (p : PortId) (f : Port → Port) : Graph σ :=
  { g with ports := g.ports.modify p f }

/-! ### Counts -/

/-- The number of live nodes. -/
def nodeCount (g : Graph σ) : Nat := g.nodes.values.length

/-- The number of live ports. -/
def portCount (g : Graph σ) : Nat := g.ports.values.length

/-- The number of links, each of which has one slot. -/
def linkCount (g : Graph σ) : Nat := g.slots.values.length

/-- The number of nodes that wait for their turn. -/
def queuedCount (g : Graph σ) : Nat := g.ready.length

/-! ### What a port sees -/

/-- The port at the other end of a link. -/
def peer? (g : Graph σ) (p : PortId) : Option PortId :=
  (g.ports.get? p).bind (·.peer?)

/-- The name of the slot behind a linked port. -/
def slotId? (g : Graph σ) (p : PortId) : Option SlotId :=
  (g.ports.get? p).bind (·.slot?)

/-- The contents of the slot behind a linked port. -/
def slotOf? (g : Graph σ) (p : PortId) : Option Slot :=
  (g.slotId? p).bind g.slots.get?

/-- Changes the slot behind a linked port. -/
def modifySlotOf (g : Graph σ) (p : PortId) (f : Slot → Slot) : Graph σ :=
  match g.slotId? p with
  | some s => { g with slots := g.slots.modify s f }
  | none => g

/-- The owner of an output port and the place of the port among the owner's
outputs. -/
def outputIndex? (g : Graph σ) (p : PortId) : Option (NodeId × Nat) := do
  let port ← g.ports.get? p
  let node ← g.nodes.get? port.owner
  let index ← node.outputs.findIdx? (· = p)
  pure (port.owner, index)

/-! ### What a node sees -/

/-- An input port as its node sees it. -/
def inputView (g : Graph σ) (p : PortId) : InputView where
  optional := (g.ports.get? p).any (·.flags.optional)
  slot := g.slotOf? p

/-- The ports of a node as its processor sees them. -/
def view (g : Graph σ) (node : Node σ) : PortView where
  inputs := node.inputs.toList.map g.inputView
  outputs := node.outputs.toList.map g.slotOf?

/-- Writes slots back to the ports that they were read from. Slots for ports
without a link are dropped. -/
def writeSlots (g : Graph σ) (ports : List PortId)
    (slots : List (Option Slot)) : Graph σ :=
  (ports.zip slots).foldl (fun g (port, slot) =>
    match slot with
    | some s => g.modifySlotOf port fun _ => s
    | none => g) g

/-- Writes what a processor left in its ports. -/
def writeView (g : Graph σ) (node : Node σ) (v : PortView) : Graph σ :=
  (g.writeSlots node.inputs.toList (v.inputs.map (·.slot))).writeSlots
    node.outputs.toList v.outputs

/-! ### Reachability -/

/-- The nodes that a node's outputs are linked to. -/
def downstream (g : Graph σ) (n : NodeId) : List NodeId :=
  match g.nodes.get? n with
  | some node => node.outputs.toList.filterMap fun p => do
      let peer ← g.peer? p
      let port ← g.ports.get? peer
      pure port.owner
  | none => []

/-- Whether data of node `a` can flow to node `b` over links; a node reaches
itself. -/
def canReach (g : Graph σ) (a b : NodeId) : Bool :=
  Reachability.reaches (fun i => (g.downstream ⟨i⟩).map (·.index))
    g.nodes.size a.index b.index

end Graph

end MediaGraph

/-
Changing the structure of a graph.

Every change is an action on the graph that either succeeds or is refused; a
refusal comes with the graph as the action left it.

* `Edit`: such an action.
* `Graph.addNode`, `Graph.removeNode`, `Graph.addPort`, `Graph.removePort`,
  `Graph.link`, `Graph.unlink`: the structure itself.
* `Graph.setRequiredIn`, `Graph.setFlags`, `Graph.reuseBuffer`: settings of a
  node, and the return of a buffer to its producer.
-/
import MediaGraph.Graph.Basic

namespace MediaGraph

/-- An action on a graph that may be refused. -/
abbrev Edit (σ α : Type) := ExceptT GraphError (StateM (Graph σ)) α

/-- The largest number of required inputs of a node, the largest of 32
bits. -/
def requiredLimit : Nat := 4294967295

namespace Graph

variable {σ : Type}

/-! ### Taking links apart -/

/-- Frees a port from its link. An input that was counted as ready is taken
back out of its owner's count. -/
def detach (g : Graph σ) (p : PortId) : Graph σ :=
  match g.ports.get? p with
  | none => g
  | some port =>
    let freed := g.modifyPort p ({ · with link := none, counted := false })
    if port.counted then
      freed.modifyNode port.owner fun n => { n with readyIn := n.readyIn - 1 }
    else freed

/-- Breaks the link that a port takes part in, if any: both ends are freed and
the slot goes. -/
def breakLink (g : Graph σ) (p : PortId) : Graph σ :=
  match (g.ports.get? p).bind (·.link) with
  | none => g.detach p
  | some l =>
    let freed := (g.detach p).detach l.peer
    { freed with slots := freed.slots.erase l.slot }

/-- Breaks the link of a port and removes the port. -/
def dropPort (g : Graph σ) (p : PortId) : Graph σ :=
  let freed := g.breakLink p
  { freed with ports := freed.ports.erase p }

/-! ### Nodes -/

/-- Adds a node without ports and gives its name. -/
def addNode (processor : σ) : Edit σ NodeId := fun g =>
  (.ok g.nodes.fresh, { g with
    nodes := g.nodes.insert { processor }
    ready := g.ready.register })

/-- Removes a node with its ports and hands back its processor. A node that
waits for its turn is taken out of the queue first. -/
def removeNode (n : NodeId) : Edit σ σ := fun g =>
  match g.nodes.get? n with
  | none => (.error (.nodeNotFound n), g)
  | some node =>
    let dequeued := { g with ready := (g.ready.remove n).2 }
    let bare := (node.inputs ++ node.outputs).foldl dropPort dequeued
    (.ok node.processor, { bare with
      nodes := bare.nodes.erase n
      ready := bare.ready.forget n })

/-! ### Ports -/

/-- Adds a port to a node. The node waits for an input that is not
optional. -/
def addPort (n : NodeId) (direction : Direction) (flags : PortFlags) :
    Edit σ PortId := fun g =>
  match g.nodes.get? n with
  | none => (.error (.nodeNotFound n), g)
  | some node =>
    let p := g.ports.fresh
    let port : Port := { direction, owner := n, flags }
    if port.isRequired && node.requiredIn = requiredLimit then
      (.error (.tooManyRequired n), g)
    else
      (.ok p, ({ g with ports := g.ports.insert port } : Graph σ).modifyNode n
        fun node => { node with
          inputs := if direction = .input then node.inputs.push p
            else node.inputs
          outputs := if direction = .output then node.outputs.push p
            else node.outputs
          requiredIn := if port.isRequired then node.requiredIn + 1
            else node.requiredIn })

/-- Removes a port, breaking its link first. -/
def removePort (p : PortId) : Edit σ Unit := fun g =>
  match g.ports.get? p with
  | none => (.error (.portNotFound p), g)
  | some port =>
    let dropped := g.dropPort p
    match dropped.nodes.get? port.owner with
    | none => (.error (.nodeNotFound port.owner), dropped)
    | some _ =>
      (.ok (), dropped.modifyNode port.owner fun node =>
        let requiredIn :=
          if port.isRequired then node.requiredIn - 1 else node.requiredIn
        { node with
          inputs := node.inputs.filter (· ≠ p)
          outputs := node.outputs.filter (· ≠ p)
          requiredIn
          readyIn := min node.readyIn requiredIn })

/-! ### Links -/

/-- Links an output to an input of another node through a fresh slot, and
gives the name of the slot. -/
def link (output input : PortId) : Edit σ SlotId := fun g =>
  match g.ports.get? output, g.ports.get? input with
  | none, _ => (.error (.portNotFound output), g)
  | some _, none => (.error (.portNotFound input), g)
  | some out, some inp =>
    if out.direction ≠ .output then (.error (.directionMismatch output), g)
    else if inp.direction ≠ .input then (.error (.directionMismatch input), g)
    else if out.link.isSome then (.error (.alreadyLinked output), g)
    else if inp.link.isSome then (.error (.alreadyLinked input), g)
    else if out.owner = inp.owner then (.error (.sameNode out.owner), g)
    else
      let s := g.slots.fresh
      let grown : Graph σ := { g with slots := g.slots.insert {} }
      let linked := grown.modifyPort output ({ · with link := some ⟨input, s⟩ })
      (.ok s, linked.modifyPort input ({ · with link := some ⟨output, s⟩ }))

/-- Breaks the link between an output and an input. -/
def unlink (output input : PortId) : Edit σ Unit := fun g =>
  match g.ports.get? output, g.ports.get? input with
  | none, _ => (.error (.portNotFound output), g)
  | some _, none => (.error (.portNotFound input), g)
  | some out, some _ =>
    if out.peer? = some input then (.ok (), g.breakLink output)
    else (.error (.notLinked output input), g)

/-! ### Settings -/

/-- Overrides how many counted inputs let a node run. -/
def setRequiredIn (n : NodeId) (required : Nat) : Edit σ Unit := fun g =>
  match g.nodes.get? n with
  | none => (.error (.nodeNotFound n), g)
  | some _ =>
    (.ok (), g.modifyNode n fun node => { node with
      requiredIn := required
      readyIn := min node.readyIn required })

/-- Replaces the flags of a node. -/
def setFlags (n : NodeId) (flags : NodeFlags) : Edit σ Unit := fun g =>
  match g.nodes.get? n with
  | none => (.error (.nodeNotFound n), g)
  | some _ => (.ok (), g.modifyNode n ({ · with flags }))

/-- Hands a buffer back to the processor that owns an output. -/
def reuseBuffer [Processor σ] (p : PortId) (b : BufferId) : Edit σ Unit :=
  fun g =>
  match g.ports.get? p with
  | none => (.error (.portNotFound p), g)
  | some port =>
    if port.direction ≠ .output then (.error (.directionMismatch p), g)
    else match g.nodes.get? port.owner with
    | none => (.error (.nodeNotFound port.owner), g)
    | some _ =>
      match g.outputIndex? p with
      | none => (.error (.portNotFound p), g)
      | some (n, index) =>
        (.ok (), g.modifyNode n fun node =>
          { node with processor := Processor.reuse node.processor index b })

end Graph

end MediaGraph

/-
Ports: the places of a node where links attach.

* `Direction`: whether data enters or leaves the node.
* `Link`: the far end of a link and the slot shared with it.
* `Port`: the owner, the link if there is one, and whether the input was
  counted as ready.
-/
import MediaGraph.Arena
import MediaGraph.Flags

namespace MediaGraph

/-- Which way data crosses a port. -/
inductive Direction where
  | input
  | output
deriving DecidableEq, Repr

/-- The far end of a link, and the slot that both ends share. -/
@[ext]
structure Link where
  peer : PortId
  slot : SlotId
deriving DecidableEq, Repr

/-- A port of a node. -/
@[ext]
structure Port where
  direction : Direction
  owner : NodeId
  flags : PortFlags := {}
  link : Option Link := none
  /-- Whether this input counts as ready in the current round. -/
  counted : Bool := false
deriving DecidableEq, Repr

namespace Port

/-- Whether the node waits for this port: an input that is not optional. -/
def isRequired (p : Port) : Bool :=
  p.direction = .input && !p.flags.optional

/-- The port at the other end. -/
def peer? (p : Port) : Option PortId := p.link.map (·.peer)

/-- The slot of the link. -/
def slot? (p : Port) : Option SlotId := p.link.map (·.slot)

end Port

end MediaGraph

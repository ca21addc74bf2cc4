/-
Processors: what a node does when it is called.

A processor is a state together with two callbacks. A callback sees the slots
of the node's own ports and nothing else of the graph.

* `PortView`: the ports of a node as its processor sees them.
* `Verdict`, `ProcessError`: how a callback ends.
* `Processor`: the interface, a class on the type of states.
-/
import MediaGraph.Flags
import MediaGraph.Slot

namespace MediaGraph

/-! ### How a callback ends -/

/-- What a callback that went well says about its node. -/
inductive Verdict where
  /-- The node waits for more input. -/
  | needInput
  /-- The node has output that its consumers should look at. -/
  | haveOutput
deriving DecidableEq, Repr

/-- Why a callback failed. -/
inductive ProcessError where
  | notSupported
  | unlinked
  | invalidBuffer (buffer : BufferId)
  | failed (reason : String)
deriving DecidableEq, Repr

/-- The text of a failure. -/
def ProcessError.message : ProcessError → String
  | .notSupported => "operation not supported by node"
  | .unlinked => "required port is not linked"
  | .invalidBuffer b => s!"invalid buffer id {b.index}"
  | .failed reason => s!"node failed: {reason}"

/-! ### The ports of a node -/

/-- An input as its node sees it: unlinked inputs have no slot. -/
@[ext]
structure InputView where
  optional : Bool
  slot : Option Slot
deriving DecidableEq, Repr

/-- The ports of a node in order of creation, each with the contents of its
slot. -/
@[ext]
structure PortView where
  inputs : List InputView
  outputs : List (Option Slot)
deriving DecidableEq, Repr

namespace PortView

/-- The slot of an input, if the input exists and is linked. -/
def input? (v : PortView) (i : Nat) : Option Slot :=
  v.inputs[i]?.bind (·.slot)

/-- The slot of an output, if the output exists and is linked. -/
def output? (v : PortView) (i : Nat) : Option Slot := v.outputs[i]?.join

/-- Whether an input exists and is optional. -/
def isOptional (v : PortView) (i : Nat) : Bool :=
  v.inputs[i]?.any (·.optional)

/-- Writes the slot of a linked input. -/
def setInput (v : PortView) (i : Nat) (s : Slot) : PortView :=
  { v with inputs := v.inputs.modify i fun p =>
      { p with slot := p.slot.map fun _ => s } }

/-- Writes the slot of a linked output. -/
def setOutput (v : PortView) (i : Nat) (s : Slot) : PortView :=
  { v with outputs := v.outputs.modify i (Option.map fun _ => s) }

/-- Changes the slot of every linked input. -/
def mapInputs (v : PortView) (f : Slot → Slot) : PortView :=
  { v with inputs := v.inputs.map fun p => { p with slot := p.slot.map f } }

end PortView

/-! ### Processors -/

/-- What a callback leaves behind: how it ended, the slots of the node's ports
and the processor. A callback that fails may have changed both. -/
structure Reply (σ : Type) where
  result : Except ProcessError Verdict
  ports : PortView
  state : σ

/-- The reply of a callback that touched nothing. -/
def Reply.unchanged {σ : Type} (result : Except ProcessError Verdict)
    (ports : PortView) (state : σ) : Reply σ :=
  ⟨result, ports, state⟩

/-- The states `σ` of a node's processor. -/
class Processor (σ : Type) where
  /-- Called when enough inputs hold data. -/
  input : σ → PortView → Reply σ
  /-- Called when a consumer asked for data. -/
  output : σ → PortView → Reply σ
  /-- Takes back a buffer that was provided on an output. -/
  reuse : σ → Nat → BufferId → σ := fun s _ _ => s
  /-- The name of the kind of processor. -/
  name : σ → String := fun _ => "node"

/-- The two callbacks of a processor. -/
inductive Side where
  | input
  | output
deriving DecidableEq, Repr

/-- Runs one of the two callbacks. -/
def Processor.call {σ : Type} [Processor σ] (side : Side) (s : σ)
    (v : PortView) : Reply σ :=
  match side with
  | .input => input s v
  | .output => output s v

end MediaGraph

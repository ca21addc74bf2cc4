/-
Nodes: a processor with its ports and the bookkeeping of the scheduler.

* `Phase`: what the scheduler does with a node when its turn comes.
* `Node`: the phase, the count of ready inputs against the number required,
  the ports in order of creation, the flags, the numbers of calls and the
  processor.
-/
import MediaGraph.Port
import MediaGraph.Processor

namespace MediaGraph

/-- What is done with a node when its turn comes. -/
inductive Phase where
  /-- Its inputs are processed. -/
  | input
  /-- It is asked for output. -/
  | output
  /-- Its inputs are counted anew, and drained ones ask their producers for
  data. -/
  | checkInput
  /-- Its outputs are announced downstream. -/
  | checkOutput
deriving DecidableEq, Repr

/-- A node whose processor has a state of type `σ`. -/
structure Node (σ : Type) where
  phase : Phase := .checkInput
  /-- How many counted inputs let `input` run. -/
  requiredIn : Nat := 0
  /-- How many inputs were counted in the current round. -/
  readyIn : Nat := 0
  inputs : Array PortId := #[]
  outputs : Array PortId := #[]
  flags : NodeFlags := {}
  inputCalls : Nat := 0
  outputCalls : Nat := 0
  processor : σ
deriving DecidableEq, Repr

namespace Node

variable {σ : Type}

/-- The ports of one direction. -/
def portsOf (n : Node σ) : Direction → Array PortId
  | .input => n.inputs
  | .output => n.outputs

/-- The phase that a callback's verdict leads to. -/
def phaseAfter : Verdict → Phase
  | .needInput => .checkInput
  | .haveOutput => .checkOutput

end Node

end MediaGraph

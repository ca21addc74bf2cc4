/-
One turn of the scheduler.

The node at the head of the ready queue leaves it and is served according to
its phase. Only the phases `input` and `output` run a callback; the two
checking phases read slots and move nodes in and out of the queue.

* `Callback`: a call that was made and how it ended.
* `Graph.checkInput`, `Graph.checkOutput`: the two checking phases.
* `Graph.callback`: a call with its bookkeeping.
* `Graph.turn?`: the whole turn, if a node waits for one.
-/
import MediaGraph.Graph.Basic

namespace MediaGraph

/-! ### Records of a turn -/

/-- A call of a node's processor. -/
structure Callback where
  node : NodeId
  side : Side
  result : Except ProcessError Verdict

/-- Why an activation stopped early. -/
inductive ActivationError where
  /-- The node to start from does not exist. -/
  | driverNotFound (node : NodeId)
  /-- A callback failed. -/
  | processFailed (node : NodeId) (cause : ProcessError)
  /-- A node has required inputs, yet none is required for it to run. -/
  | nothingRequired (node : NodeId)
  /-- The allowed number of turns did not suffice. -/
  | tooManyTurns
deriving DecidableEq, Repr

/-- The text of an early stop. -/
def ActivationError.message : ActivationError → String
  | .driverNotFound n => s!"driver node {n.text} not found"
  | .processFailed n cause => s!"{n.text} failed: {cause.message}"
  | .nothingRequired n =>
    s!"{n.text} declares required inputs but required_in is zero"
  | .tooManyTurns => "the activation takes too many turns"

/-- What a turn leaves behind. -/
structure Turn (σ : Type) where
  graph : Graph σ
  /-- The call that was made in this turn. -/
  callback : Option Callback := none
  failure : Option ActivationError := none

namespace Graph

variable {σ : Type}

/-! ### Waiting for a turn -/

/-- Puts a node at the end of the queue, unless it waits already. -/
def enqueue (g : Graph σ) (n : NodeId) : Graph σ :=
  { g with ready := (g.ready.pushBack n).2 }

/-- Takes a node out of the queue. -/
def dequeue (g : Graph σ) (n : NodeId) : Graph σ :=
  { g with ready := (g.ready.remove n).2 }

/-! ### Counting ready inputs -/

/-- Starts a new round of counting for a node: no input is counted. -/
def resetReady (g : Graph σ) (n : NodeId) : Graph σ :=
  match g.nodes.get? n with
  | none => g
  | some node =>
    node.inputs.foldl (fun g p => g.modifyPort p ({ · with counted := false }))
      (g.modifyNode n ({ · with readyIn := 0 }))

/-- Counts an input as ready. -/
def count (g : Graph σ) (n : NodeId) (p : PortId) : Graph σ :=
  (g.modifyPort p ({ · with counted := true })).modifyNode n
    fun node => { node with readyIn := node.readyIn + 1 }

/-- Takes an input back out of its node's count if its data is gone. -/
def uncountDrained (n : NodeId) (g : Graph σ) (p : PortId) : Graph σ :=
  match g.ports.get? p with
  | none => g
  | some port =>
    if port.counted && !((g.slotOf? p).any (·.hasData)) then
      (g.modifyPort p ({ · with counted := false })).modifyNode n
        fun node => { node with readyIn := node.readyIn - 1 }
    else g

/-- Takes the inputs that a callback consumed out of the count of its node. -/
def dropConsumed (g : Graph σ) (n : NodeId) : Graph σ :=
  match g.nodes.get? n with
  | none => g
  | some node => node.inputs.foldl (uncountDrained n) g

/-! ### Checking inputs -/

/-- Asks the owner of an output for data. The driver is asked only if it is
asynchronous: its own request is what the activation serves. -/
def ask (g : Graph σ) (output : PortId) : Graph σ :=
  match g.ports.get? output with
  | none => g
  | some port =>
    match g.nodes.get? port.owner with
    | none => g
    | some producer =>
      if g.driver ≠ some port.owner ∨ producer.flags.async then
        (g.modifyNode port.owner ({ · with phase := .output })).enqueue
          port.owner
      else g

/-- Looks at one input: a drained one asks its producer, a required one about
which nothing was said yet counts as ready. -/
def checkInputPort (n : NodeId) (g : Graph σ) (p : PortId) : Graph σ :=
  match g.ports.get? p with
  | none => g
  | some port =>
    match port.link with
    | none => g
    | some l =>
      match (g.slots.get? l.slot).elim .ok (·.status) with
      | .needData => g.ask l.peer
      | .ok => if port.isRequired then g.count n p else g
      | .haveData => g
      | .error => g

/-- Whether a node has required inputs while none is required for it to
run. -/
def demandsNothing (g : Graph σ) (node : Node σ) : Bool :=
  node.requiredIn = 0 &&
    node.inputs.any fun p => (g.ports.get? p).any (·.isRequired)

/-- Counts the ready inputs of a node anew and asks the producers of the
drained ones for data. -/
def checkInput (g : Graph σ) (n : NodeId) : Graph σ :=
  match g.nodes.get? n with
  | none => g
  | some node => node.inputs.foldl (checkInputPort n) (g.resetReady n)

/-! ### Checking outputs -/

/-- Announces a link to the node at its far end. An input that holds data and
was not counted before is counted, and the node is queued for input once its
count is exactly the number required; otherwise it leaves the queue. -/
def announce (g : Graph σ) (p : PortId) : Graph σ :=
  match g.ports.get? p with
  | none => g
  | some port =>
    let fresh := port.isRequired && !port.counted &&
      (port.link.bind fun l => g.slots.get? l.slot).any (·.hasData)
    let counted := if fresh then g.count port.owner p else g
    match counted.nodes.get? port.owner with
    | none => counted
    | some node =>
      if 0 < node.requiredIn ∧ node.readyIn = node.requiredIn then
        (counted.modifyNode port.owner ({ · with phase := .input })).enqueue
          port.owner
      else counted.dequeue port.owner

/-- Announces one output, if it is linked. -/
def checkOutputPort (g : Graph σ) (p : PortId) : Graph σ :=
  match g.peer? p with
  | some peer => g.announce peer
  | none => g

/-- Announces the outputs of a node. -/
def checkOutput (g : Graph σ) (n : NodeId) : Graph σ :=
  match g.nodes.get? n with
  | none => g
  | some node => node.outputs.foldl checkOutputPort g

/-! ### Callbacks -/

/-- Adds a call to the counters of the activation. -/
def countCall (g : Graph σ) (side : Side) : Graph σ :=
  { g with stats := match side with
    | .input => { g.stats with inputCalls := g.stats.inputCalls + 1 }
    | .output => { g.stats with outputCalls := g.stats.outputCalls + 1 } }

/-- A node after a call that left `state`. -/
def afterCall (side : Side) (state : σ) (node : Node σ) : Node σ :=
  match side with
  | .input =>
    { node with inputCalls := node.inputCalls + 1, processor := state }
  | .output =>
    { node with outputCalls := node.outputCalls + 1, processor := state }

/-- Calls a node's processor and moves the node to the phase that the verdict
leads to. The inputs counted for a round are forgotten when they are about to
be processed, and those that `output` consumed are taken back out of the
count. A node whose call failed keeps its phase. -/
def callback [Processor σ] (g : Graph σ) (n : NodeId) (node : Node σ)
    (side : Side) : Except ProcessError Verdict × Graph σ :=
  let before := match side with
    | .input => g.resetReady n
    | .output => g
  let reply := Processor.call side node.processor (before.view node)
  let called := ((before.modifyNode n (afterCall side reply.state)).writeView
    node reply.ports).countCall side
  let after := match side with
    | .input => called
    | .output => called.dropConsumed n
  match reply.result with
  | .ok verdict =>
    (.ok verdict,
      after.modifyNode n ({ · with phase := Node.phaseAfter verdict }))
  | .error cause => (.error cause, after)

/-! ### Turns -/

/-- Serves a node that left the queue. The driver is not queued again after
its inputs were processed. -/
def serve [Processor σ] (g : Graph σ) (n : NodeId) (node : Node σ) : Turn σ :=
  match node.phase with
  | .input =>
    match g.callback n node .input with
    | (.ok verdict, g') =>
      { graph := if g'.driver = some n then g' else g'.enqueue n
        callback := some ⟨n, .input, .ok verdict⟩ }
    | (.error cause, g') =>
      { graph := g'
        callback := some ⟨n, .input, .error cause⟩
        failure := some (.processFailed n cause) }
  | .output =>
    match g.callback n node .output with
    | (.ok verdict, g') =>
      { graph := g'.enqueue n
        callback := some ⟨n, .output, .ok verdict⟩ }
    | (.error cause, g') =>
      { graph := g'
        callback := some ⟨n, .output, .error cause⟩
        failure := some (.processFailed n cause) }
  | .checkInput =>
    if g.demandsNothing node then
      { graph := g.resetReady n, failure := some (.nothingRequired n) }
    else { graph := (g.checkInput n).checkOutput n }
  | .checkOutput => { graph := g.checkOutput n }

/-- The turn of the node at the head of the queue; `none` if nothing waits. -/
def turn? [Processor σ] (g : Graph σ) : Option (Turn σ) :=
  match g.ready.popFront with
  | (none, _) => none
  | (some n, ready) =>
    let popped := { g with ready }
    match popped.nodes.get? n with
    | none => some { graph := popped }
    | some node => some (serve
        { popped with stats :=
          { g.stats with dispatches := g.stats.dispatches + 1 } } n node)

end Graph

end MediaGraph

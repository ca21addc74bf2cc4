/-
Networks and flows: the scheduler without arenas.

What a turn of the scheduler depends on is split in two: how the nodes are
connected, which no activation changes, and the state of the demand that
travels over the links.  A link is named by the input at its far end.

* `Network`: the inputs of every node, the inputs that its outputs are linked
  to, and the settings that the scheduler reads;
* `Flow`: who waits for a turn and in which phase, the counts of ready inputs,
  the slot of every link, the processor of every node, and the counters;
* `Network.serve`: the turn of one node, phase by phase;
* `Network.Runs`, `Network.Ends`: turns one after the other, of any nodes that
  wait, and how they come to an end;
* `Network.Proper`: the two ends of every link know of each other.
-/
import Mathlib.Data.List.Nodup
import Mathlib.Data.List.ReduceOption
import Mathlib.Logic.Function.Basic
import Mathlib.Order.Basic
import Mathlib.Tactic.Common
import MediaGraph.Graph.Activation

namespace MediaGraph

variable {σ : Type}

/-! ### Networks -/

/-- How nodes are connected, and what the scheduler reads of them. -/
structure Network where
  inputs : NodeId → List PortId
  /-- For every output of a node the input that it is linked to, if any. -/
  outputs : NodeId → List (Option PortId)
  owner : PortId → Option NodeId
  /-- The node that an input is linked to, if it is linked. -/
  feeder : PortId → Option NodeId
  optional : PortId → Bool
  required : NodeId → Nat
  async : NodeId → Bool

namespace Network

instance (N : Network) (n : NodeId) (p : PortId) : Decidable (p ∈ N.inputs n) :=
  List.instDecidableMemOfLawfulBEq p (N.inputs n)

/-- The inputs that the outputs of a node are linked to. -/
def targets (N : Network) (n : NodeId) : List PortId :=
  (N.outputs n).reduceOption

/-- The two ends of a link know of each other, and no link leads from a node to
itself. -/
structure Proper (N : Network) : Prop where
  owner : ∀ {n p}, p ∈ N.inputs n → N.owner p = some n
  nodup : ∀ n, (N.inputs n).Nodup
  target : ∀ {x p}, p ∈ N.targets x → ∃ c, p ∈ N.inputs c
  feeder : ∀ {c p}, p ∈ N.inputs c → ∀ x, N.feeder p = some x ↔ p ∈ N.targets x
  irrefl : ∀ {c p}, p ∈ N.inputs c → N.feeder p ≠ some c

/-- An output of `x` is linked to an input of `c`. -/
def Feeds (N : Network) (x c : NodeId) : Prop :=
  ∃ p ∈ N.inputs c, N.feeder p = some x

/-- An input belongs to one node. -/
lemma Proper.owner_unique {N : Network} (hN : N.Proper) {p : PortId}
    {c c' : NodeId} (h : p ∈ N.inputs c) (h' : p ∈ N.inputs c') : c = c' := by
  simpa [hN.owner h] using hN.owner h'

/-- An output of a node is not linked to an input of the same node. -/
lemma Proper.not_mem_inputs {N : Network} (hN : N.Proper) {n : NodeId}
    {p : PortId} (hp : p ∈ N.targets n) : p ∉ N.inputs n :=
  fun h => hN.irrefl h ((hN.feeder h n).mpr hp)

lemma targets_of_outputs {N : Network} {n : NodeId} {p : PortId}
    (ho : N.outputs n = [some p]) : N.targets n = [p] := by
  rw [targets, ho]
  rfl

end Network

/-! ### Flows -/

/-- The state of the demand in a network. -/
@[ext]
structure Flow (σ : Type) where
  queued : NodeId → Bool
  phase : NodeId → Phase
  ready : NodeId → Nat
  counted : PortId → Bool
  /-- The slot of the link to an input. -/
  slot : PortId → Slot
  processor : NodeId → Option σ
  stats : ActivationStats

namespace Flow

/-- The link to an input holds an unread buffer. -/
def full (s : Flow σ) (p : PortId) : Bool := (s.slot p).hasData

/-- A node waits for its turn. -/
def enqueue (s : Flow σ) (n : NodeId) : Flow σ :=
  { s with queued := Function.update s.queued n true }

/-- A node does not wait for its turn any more. -/
def dequeue (s : Flow σ) (n : NodeId) : Flow σ :=
  { s with queued := Function.update s.queued n false }

/-- Puts a node into a phase. -/
def setPhase (s : Flow σ) (n : NodeId) (φ : Phase) : Flow σ :=
  { s with phase := Function.update s.phase n φ }

/-- Replaces the processor of a node. -/
def setProcessor (s : Flow σ) (n : NodeId) (x : σ) : Flow σ :=
  { s with processor := Function.update s.processor n (some x) }

/-- Writes the slot of the link to an input. -/
def setSlot (s : Flow σ) (p : PortId) (c : Slot) : Flow σ :=
  { s with slot := Function.update s.slot p c }

/-- Counts an input as ready. -/
def count (s : Flow σ) (n : NodeId) (p : PortId) : Flow σ :=
  { s with
    ready := Function.update s.ready n (s.ready n + 1)
    counted := Function.update s.counted p true }

/-- Takes an input back out of the count. -/
def uncount (s : Flow σ) (n : NodeId) (p : PortId) : Flow σ :=
  { s with
    ready := Function.update s.ready n (s.ready n - 1)
    counted := Function.update s.counted p false }

/-- A node becomes the driver of an activation and waits for its turn. -/
def start (s : Flow σ) (mode : Mode) (n : NodeId) : Flow σ :=
  ({ s.setPhase n mode.phase with stats := {} } : Flow σ).enqueue n

/-- Nobody waits for a turn any more. -/
def clear (s : Flow σ) : Flow σ := { s with queued := fun _ => false }

/-- Adds a turn to the counters. -/
def countTurn (s : Flow σ) : Flow σ :=
  { s with stats := { s.stats with dispatches := s.stats.dispatches + 1 } }

/-- Adds a call to the counters. -/
def countCall (s : Flow σ) (side : Side) : Flow σ :=
  { s with stats := match side with
    | .input => { s.stats with inputCalls := s.stats.inputCalls + 1 }
    | .output => { s.stats with outputCalls := s.stats.outputCalls + 1 } }

/-- Writes a slot through a port, provided that the port is linked. -/
def writeSlot (s : Flow σ) (x : Option PortId × Option Slot) : Flow σ :=
  match x with
  | (some p, some c) => s.setSlot p c
  | _ => s

/-- Writes slots back to the links that they were read from. -/
def writeSlots (s : Flow σ) (links : List (Option PortId))
    (slots : List (Option Slot)) : Flow σ :=
  (links.zip slots).foldl writeSlot s

end Flow

/-! ### Turns -/

/-- What the turn of a node leaves behind. -/
structure FlowTurn (σ : Type) where
  flow : Flow σ
  callback : Option Callback := none
  failure : Option ActivationError := none

namespace Network

variable (N : Network) (D : Option NodeId)

/-- No input of a node is counted any more. -/
def reset (n : NodeId) (s : Flow σ) : Flow σ :=
  { s with
    ready := Function.update s.ready n 0
    counted := fun p => if p ∈ N.inputs n then false else s.counted p }

/-- A node is asked for data, unless it is a driver `D` that is not
asynchronous. -/
def ask (s : Flow σ) (x : NodeId) : Flow σ :=
  if D ≠ some x ∨ N.async x then (s.setPhase x .output).enqueue x else s

/-- Looks at one input of `n`. -/
def checkInPort (n : NodeId) (s : Flow σ) (p : PortId) : Flow σ :=
  match N.feeder p with
  | none => s
  | some x =>
    match (s.slot p).status with
    | .needData => N.ask D s x
    | .ok => if N.optional p then s else s.count n p
    | .haveData => s
    | .error => s

/-- Counts the ready inputs of a node anew and asks for data on the drained
ones. -/
def checkIn (n : NodeId) (s : Flow σ) : Flow σ :=
  (N.inputs n).foldl (N.checkInPort D n) (N.reset n s)

/-- Announces the link to an input. -/
def announce (s : Flow σ) (p : PortId) : Flow σ :=
  match N.owner p with
  | none => s
  | some c =>
    let s' := if !N.optional p && !s.counted p && s.full p then s.count c p
      else s
    if 0 < N.required c ∧ s'.ready c = N.required c then
      (s'.setPhase c .input).enqueue c
    else s'.dequeue c

/-- Announces the outputs of a node. -/
def checkOut (n : NodeId) (s : Flow σ) : Flow σ :=
  (N.targets n).foldl N.announce s

/-- Takes an input back out of the count if its data is gone. -/
def uncountDrained (n : NodeId) (s : Flow σ) (p : PortId) : Flow σ :=
  if s.counted p && !((N.feeder p).isSome && s.full p) then s.uncount n p
  else s

/-- Takes the inputs that a call consumed back out of the count. -/
def dropConsumed (n : NodeId) (s : Flow σ) : Flow σ :=
  (N.inputs n).foldl (N.uncountDrained n) s

/-- An input, provided that it is linked. -/
def linked? (p : PortId) : Option PortId :=
  if (N.feeder p).isSome then some p else none

/-- The ports of a node as its processor sees them. -/
def view (n : NodeId) (s : Flow σ) : PortView where
  inputs := (N.inputs n).map fun p =>
    ⟨N.optional p, (N.linked? p).map s.slot⟩
  outputs := (N.outputs n).map (Option.map s.slot)

/-- Writes what a processor left in the ports of its node. -/
def writeView (n : NodeId) (v : PortView) (s : Flow σ) : Flow σ :=
  (s.writeSlots ((N.inputs n).map N.linked?) (v.inputs.map (·.slot))).writeSlots
    (N.outputs n) v.outputs

/-- A node has required inputs while none is required for it to run. -/
def demandsNothing (n : NodeId) : Bool :=
  N.required n = 0 && (N.inputs n).any fun p => !N.optional p

variable [Processor σ]

/-- Calls the processor `x` of a node. -/
def call (n : NodeId) (x : σ) (side : Side) (s : Flow σ) :
    Except ProcessError Verdict × Flow σ :=
  let before := match side with
    | .input => N.reset n s
    | .output => s
  let reply := Processor.call side x (N.view n before)
  let called := (N.writeView n reply.ports
    (before.setProcessor n reply.state)).countCall side
  let after := match side with
    | .input => called
    | .output => N.dropConsumed n called
  match reply.result with
  | .ok verdict => (.ok verdict, after.setPhase n (Node.phaseAfter verdict))
  | .error cause => (.error cause, after)

/-- What follows from a call that ended with `r`: a node whose call went well
waits for its next turn, except for the driver after its inputs were
processed. -/
def report (n : NodeId) (side : Side)
    (r : Except ProcessError Verdict × Flow σ) : FlowTurn σ :=
  match r with
  | (.ok verdict, t) =>
    { flow := if side = .input ∧ D = some n then t else t.enqueue n
      callback := some ⟨n, side, .ok verdict⟩ }
  | (.error cause, t) =>
    { flow := t
      callback := some ⟨n, side, .error cause⟩
      failure := some (.processFailed n cause) }

/-- The turn of a node with the processor `x`, which left the queue. -/
def serveNode (n : NodeId) (x : σ) (s : Flow σ) : FlowTurn σ :=
  match s.phase n with
  | .input => report D n .input (N.call n x .input s)
  | .output => report D n .output (N.call n x .output s)
  | .checkInput =>
    if N.demandsNothing n then
      { flow := N.reset n s, failure := some (.nothingRequired n) }
    else { flow := N.checkOut n (N.checkIn D n s) }
  | .checkOutput => { flow := N.checkOut n s }

/-- The turn of a node: it leaves the queue and is served. -/
def serve (n : NodeId) (s : Flow σ) : FlowTurn σ :=
  match s.processor n with
  | none => { flow := s.dequeue n }
  | some x => N.serveNode D n x (s.dequeue n).countTurn

/-- No turn uses up the allowed turns. -/
lemma failure_serve_ne_tooManyTurns (n : NodeId) (s : Flow σ) :
    (N.serve D n s).failure ≠ some .tooManyTurns := by
  have hcall : ∀ (side : Side) (r : Except ProcessError Verdict × Flow σ),
      (report D n side r).failure ≠ some .tooManyTurns := by
    rintro side ⟨_ | _, t⟩ <;> simp [report]
  rw [serve]
  split
  · simp
  · rw [serveNode]
    split
    · exact hcall _ _
    · exact hcall _ _
    · split <;> simp
    · simp

/-! ### Runs -/

/-- `k` turns without a failure, and the calls that were made in them.  Each
turn is that of some node that waits for it. -/
inductive Runs (s : Flow σ) : Nat → List Callback → Flow σ → Prop
  | refl : Runs s 0 [] s
  | turn {k : Nat} {calls : List Callback} {t u : Flow σ} {n : NodeId}
      {call : Option Callback} :
      Runs s k calls t → t.queued n = true →
      N.serve D n t = ⟨u, call, none⟩ →
      Runs s (k + 1) (calls ++ call.toList) u

/-- How a run of at most `budget` turns ends: nobody waits any more, a turn
fails, or the turns are used up while somebody waits. -/
inductive Ends (s : Flow σ) (budget : Nat) :
    Except ActivationError Unit → List Callback → Flow σ → Prop
  | settled {k : Nat} {calls : List Callback} {t : Flow σ} :
      N.Runs D s k calls t → k ≤ budget → (∀ n, t.queued n = false) →
      Ends s budget (.ok ()) calls t
  | failed {k : Nat} {calls : List Callback} {t u : Flow σ} {n : NodeId}
      {call : Option Callback} {e : ActivationError} :
      N.Runs D s k calls t → k < budget → t.queued n = true →
      N.serve D n t = ⟨u, call, some e⟩ →
      Ends s budget (.error e) (calls ++ call.toList) u
  | exhausted {calls : List Callback} {t : Flow σ} {n : NodeId} :
      N.Runs D s budget calls t → t.queued n = true →
      Ends s budget (.error .tooManyTurns) calls t

end Network

end MediaGraph

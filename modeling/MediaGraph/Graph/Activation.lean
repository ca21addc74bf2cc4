/-
Activations: turn after turn until the ready queue is empty.

An activation starts from one node, its driver: `pull` on a node that needs
input, `push` on a node that has data. It ends when no node waits for a turn,
or earlier with an error, after which the queue is emptied.

* `Graph.settle`: turns until the queue is empty, at most as many as allowed.
* `Graph.activate`: a whole activation, with the calls that it made.
* `Graph.pull`, `Graph.push`: activations with the largest number of turns
  that the counter of turns can hold.
-/
import MediaGraph.Graph.Dispatch

namespace MediaGraph

/-- The two ways to start an activation. -/
inductive Mode where
  /-- The driver needs input. -/
  | pull
  /-- The driver produced data on its own. -/
  | push
deriving DecidableEq, Repr

namespace Mode

/-- The phase in which the driver starts. -/
def phase : Mode → Phase
  | .pull => .checkInput
  | .push => .output

/-- The word for a mode. -/
def text : Mode → String
  | .pull => "pull"
  | .push => "push"

end Mode

/-- What an activation leaves behind: the graph, how it ended, and the calls
that it made, in order. -/
structure Activation (σ : Type) where
  graph : Graph σ
  result : Except ActivationError Unit
  callbacks : List Callback

namespace Graph

variable {σ : Type} [Processor σ]

/-- Takes turns until the queue is empty, at most `budget` of them. The calls
are collected in front of `calls`, the latest one first. -/
def settle : Nat → Graph σ → List Callback → Activation σ
  | budget, g, calls =>
    match g.turn? with
    | none => ⟨g, .ok (), calls⟩
    | some turn =>
      match budget with
      | 0 => ⟨g, .error .tooManyTurns, calls⟩
      | budget + 1 =>
        let calls := turn.callback.toList ++ calls
        match turn.failure with
        | some failure => ⟨turn.graph, .error failure, calls⟩
        | none => settle budget turn.graph calls

/-- Makes a node the driver and queues it. -/
def start (g : Graph σ) (mode : Mode) (n : NodeId) : Graph σ :=
  ({ g.modifyNode n ({ · with phase := mode.phase }) with
    driver := some n
    stats := {} } : Graph σ).enqueue n

/-- Ends an activation: there is no driver any more, and nothing waits. -/
def finish (a : Activation σ) : Activation σ :=
  { graph := { a.graph with
      ready := match a.result with
        | .ok _ => a.graph.ready
        | .error _ => a.graph.ready.clear
      driver := none }
    result := a.result
    callbacks := a.callbacks.reverse }

/-- Activates a node, taking at most `budget` turns. -/
def activate (budget : Nat) (mode : Mode) (n : NodeId) (g : Graph σ) :
    Activation σ :=
  match g.nodes.get? n with
  | none => ⟨g, .error (.driverNotFound n), []⟩
  | some _ => finish (settle budget (g.start mode n) [])

/-- The largest number of turns that the counter of turns can hold, which has
32 bits. -/
def turnLimit : Nat := 4294967295

/-- Serves a node that needs input. -/
def pull (g : Graph σ) (n : NodeId) : Activation σ :=
  g.activate turnLimit .pull n

/-- Propagates data that a node produced on its own. -/
def push (g : Graph σ) (n : NodeId) : Activation σ :=
  g.activate turnLimit .push n

end Graph

end MediaGraph

/-
What a client can do with a graph.

* `Action`: the operations on a graph, structural ones, settings, writes to a
  slot and activations;
* `Name`: the name of a node, of a port or of a slot;
* `Action.perform`: the graph that an action leaves behind, whether it succeeds
  or is refused, and the name that it gives out;
* `Action.graph`, `Action.names`: what a sequence of actions makes of the empty
  graph, and the names that were given out on the way;
* `Action.graph_induction`: what every action keeps holds of all these graphs.
-/
import Mathlib.Data.List.Induction
import Mathlib.Tactic.Common
import MediaGraph.Graph.Activation
import MediaGraph.Graph.Edit

namespace MediaGraph

variable {σ : Type}

/-! ### Names -/

/-- The name of an entry of a graph. -/
structure Name where
  kind : Kind
  handle : Handle kind
deriving DecidableEq

/-- Whether a name is that of a live entry. -/
def Graph.isLive (g : Graph σ) : Name → Bool
  | ⟨.node, n⟩ => g.nodes.contains n
  | ⟨.port, p⟩ => g.ports.contains p
  | ⟨.slot, s⟩ => g.slots.contains s

/-! ### Actions -/

/-- An operation on a graph. A pull and a push are activations with the turns
of `Graph.turnLimit`. -/
inductive Action (σ : Type) where
  | addNode (processor : σ)
  | removeNode (node : NodeId)
  | addPort (node : NodeId) (direction : Direction) (flags : PortFlags)
  | removePort (port : PortId)
  | link (output input : PortId)
  | unlink (output input : PortId)
  | setRequiredIn (node : NodeId) (required : Nat)
  | setFlags (node : NodeId) (flags : NodeFlags)
  | reuseBuffer (port : PortId) (buffer : BufferId)
  | writeSlot (port : PortId) (contents : Slot)
  | activate (budget : Nat) (mode : Mode) (node : NodeId)

namespace Action

/-- The name that an edit gives out, if it succeeds. -/
def issue {kind : Kind}
    (r : Except GraphError (Handle kind) × Graph σ) : Option Name × Graph σ :=
  match r with
  | (.ok h, g) => (some ⟨kind, h⟩, g)
  | (.error _, g) => (none, g)

/-- What an edit leaves behind does not depend on the name that it gives out. -/
lemma snd_issue {kind : Kind} (r : Except GraphError (Handle kind) × Graph σ) :
    (issue r).2 = r.2 := by
  rcases r with ⟨_ | _, g⟩ <;> rfl

variable [Processor σ]

/-- The name that an action gives out, and the graph that it leaves behind. A
refused action gives out no name. -/
def perform : Action σ → Graph σ → Option Name × Graph σ
  | addNode processor, g => issue ((Graph.addNode processor).run g)
  | removeNode n, g => (none, ((Graph.removeNode n).run g).2)
  | addPort n direction flags, g => issue ((Graph.addPort n direction flags).run g)
  | removePort p, g => (none, ((Graph.removePort p).run g).2)
  | link p q, g => issue ((Graph.link p q).run g)
  | unlink p q, g => (none, ((Graph.unlink p q).run g).2)
  | setRequiredIn n required, g => (none, ((Graph.setRequiredIn n required).run g).2)
  | setFlags n flags, g => (none, ((Graph.setFlags n flags).run g).2)
  | reuseBuffer p b, g => (none, ((Graph.reuseBuffer p b).run g).2)
  | writeSlot p contents, g => (none, g.modifySlotOf p fun _ => contents)
  | activate budget mode n, g => (none, (g.activate budget mode n).graph)

/-- The names that actions give out one after the other, and the graph that
they make of the empty one. -/
def run (actions : List (Action σ)) : List Name × Graph σ :=
  actions.foldl (fun (names, g) a =>
    (names ++ (a.perform g).1.toList, (a.perform g).2)) ([], .empty)

/-- The names that actions give out. -/
def names (actions : List (Action σ)) : List Name := (run actions).1

/-- The graph that actions make of the empty one. -/
def graph (actions : List (Action σ)) : Graph σ := (run actions).2

@[simp] lemma graph_nil : graph ([] : List (Action σ)) = .empty := rfl

@[simp] lemma names_nil : names ([] : List (Action σ)) = [] := rfl

lemma graph_concat (actions : List (Action σ)) (a : Action σ) :
    graph (actions ++ [a]) = (a.perform (graph actions)).2 := by
  simp [graph, run]

lemma names_concat (actions : List (Action σ)) (a : Action σ) :
    names (actions ++ [a]) =
      names actions ++ (a.perform (graph actions)).1.toList := by
  simp [names, graph, run]

/-- What holds of the empty graph and is kept by every action holds of the
graph that actions make of the empty one. -/
lemma graph_induction {P : Graph σ → Prop} (h₀ : P .empty)
    (hstep : ∀ (a : Action σ) (g : Graph σ), P g → P (a.perform g).2)
    (actions : List (Action σ)) : P (graph actions) := by
  induction actions using List.reverseRecOn with
  | nil => exact h₀
  | append_singleton actions a ih =>
      rw [graph_concat]
      exact hstep a _ ih

end Action

end MediaGraph

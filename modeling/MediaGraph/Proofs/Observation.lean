/-
What can be observed of a graph from outside.

* `Graph.inputsOf`, `Graph.feeder?`, `Graph.Feeds`: the inputs of a node, the
  node that an input is linked to, and that nodes are linked;
* `Graph.hasData`: whether the link to a port holds an unread buffer;
* `Graph.processor?`: the processor of a node;
* `Graph.FullyLinked`: every port is linked;
* `Shows.inputsOf_eq`, `Shows.feeder?_eq`, `Shows.hasData_eq`,
  `Shows.processor?_eq`: the same in the network and the flow of the graph.
-/
import MediaGraph.Proofs.Network.OfGraph

namespace MediaGraph.Graph

variable {σ : Type}

/-- The inputs of a node. -/
def inputsOf (g : Graph σ) (n : NodeId) : List PortId :=
  (g.nodes.get? n).elim [] (·.inputs.toList)

/-- The outputs of a node. -/
def outputsOf (g : Graph σ) (n : NodeId) : List PortId :=
  (g.nodes.get? n).elim [] (·.outputs.toList)

/-- The node at the other end of a link. -/
def feeder? (g : Graph σ) (p : PortId) : Option NodeId :=
  (g.peer? p).bind fun q => (g.ports.get? q).map (·.owner)

/-- An output of `x` is linked to an input of `c`. -/
def Feeds (g : Graph σ) (x c : NodeId) : Prop :=
  ∃ p ∈ g.inputsOf c, g.feeder? p = some x

/-- A property of all links can be checked node by node. -/
lemma Feeds.of_all {g : Graph σ} {r : NodeId → NodeId → Bool}
    (h : (List.range g.nodes.size).all (fun i => (g.inputsOf ⟨i⟩).all fun p =>
      (g.feeder? p).all (r · ⟨i⟩)) = true) {x c : NodeId} (hxc : g.Feeds x c) :
    r x c = true := by
  obtain ⟨p, hp, hx⟩ := hxc
  simp only [List.all_eq_true, List.mem_range, Option.all_eq_true] at h
  have hc : c.index < g.nodes.size := by
    by_contra hge
    rw [inputsOf, Arena.get?_of_size_le (Nat.not_lt.mp hge)] at hp
    cases hp
  exact h c.index hc p hp x hx

/-- The link to a port holds an unread buffer. -/
def hasData (g : Graph σ) (p : PortId) : Bool := (g.slotOf? p).any (·.hasData)

/-- The processor of a node. -/
def processor? (g : Graph σ) (n : NodeId) : Option σ :=
  (g.nodes.get? n).map (·.processor)

/-- Every port is linked. -/
def FullyLinked (g : Graph σ) : Prop :=
  ∀ p port, g.ports.get? p = some port → port.link.isSome = true

namespace Shows

variable {g : Graph σ} {Λ : Layout} {D : Option NodeId} {s : Flow σ}

lemma inputsOf_eq (h : g.Shows Λ D s) (n : NodeId) :
    g.inputsOf n = Λ.network.inputs n := by
  simp only [inputsOf, Layout.network, Layout.portsOf, h.node_eq]
  rcases g.nodes.get? n with _ | node <;> rfl

lemma outputsOf_eq (h : g.Shows Λ D s) (n : NodeId) :
    g.outputsOf n = Λ.portsOf n .output := by
  simp only [outputsOf, Layout.portsOf, h.node_eq]
  rcases g.nodes.get? n with _ | node <;> rfl

lemma feeder?_eq (h : g.Shows Λ D s) (p : PortId) :
    g.feeder? p = Λ.network.feeder p := by
  simp only [feeder?, h.peer?_eq, Layout.network]
  rcases Λ.peer? p with _ | q
  · rfl
  · simp only [Option.bind_some, h.port_eq]
    rcases g.ports.get? q with _ | port <;> rfl

lemma feeds_iff (h : g.Shows Λ D s) {x c : NodeId} :
    g.Feeds x c ↔ Λ.network.Feeds x c := by
  rw [Feeds, Network.Feeds, h.inputsOf_eq]
  simp only [h.feeder?_eq]

lemma hasData_eq (hΛ : Λ.Proper) (h : g.Shows Λ D s) {n : NodeId} {p : PortId}
    (hp : p ∈ Λ.network.inputs n) :
    g.hasData p = ((Λ.network.feeder p).isSome && (s.slot p).hasData) := by
  rw [hasData, h.slotOf?_input hΛ hp, Network.linked?]
  cases (Λ.network.feeder p).isSome <;> rfl

lemma processor?_eq (h : g.Shows Λ D s) (n : NodeId) :
    g.processor? n = s.processor n := by
  rw [← h.flow]
  rfl

/-- If every port is linked then every input has a feeder. -/
lemma isSome_feeder? (hΛ : Λ.Proper) (h : g.Shows Λ D s) (hg : g.FullyLinked)
    {n : NodeId} {p : PortId} (hp : p ∈ g.inputsOf n) :
    (g.feeder? p).isSome = true := by
  rw [h.inputsOf_eq] at hp
  obtain ⟨port', hport', -⟩ := hΛ.mem_portsOf.mp hp
  obtain ⟨port, hport, -⟩ := h.exists_port hport'
  rw [h.feeder?_eq, hΛ.isSome_feeder, ← h.peer?_eq, peer?, hport,
    Option.bind_some, Port.peer?, Option.isSome_map]
  exact hg p port hport

end Shows

end MediaGraph.Graph

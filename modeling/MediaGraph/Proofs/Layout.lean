/-
Layouts: the part of a graph that no activation changes.

* `Layout`: the ports and settings of every node, the owner and the link of
  every port, the slots that exist, and the nodes that have a place in the
  queue;
* `Graph.layout`: the layout of a graph;
* `Layout.Proper`: ports are listed by their owners, the two ends of a link
  name each other, and no two links share a slot;
* `Layout.network`, `Layout.Proper.network`: the network of a layout, and that
  its links are proper.
-/
import MediaGraph.Proofs.Network.Basic

namespace MediaGraph

variable {σ : Type}

/-! ### Layouts -/

/-- The ports and the settings of a node. -/
@[ext]
structure NodeLayout where
  inputs : Array PortId
  outputs : Array PortId
  requiredIn : Nat
  flags : NodeFlags

/-- The ports of one direction. -/
def NodeLayout.portsOf (n : NodeLayout) : Direction → Array PortId
  | .input => n.inputs
  | .output => n.outputs

/-- The part of a node that no activation changes. -/
def Node.layout (n : Node σ) : NodeLayout :=
  ⟨n.inputs, n.outputs, n.requiredIn, n.flags⟩

lemma Node.portsOf_layout (n : Node σ) (d : Direction) :
    n.layout.portsOf d = n.portsOf d := by
  cases d <;> rfl

/-- The part of a port that no activation changes. -/
def Port.layout (p : Port) : Port := { p with counted := false }

/-- The structure of a graph. -/
@[ext]
structure Layout where
  node : NodeId → Option NodeLayout
  port : PortId → Option Port
  /-- The slots that exist. -/
  slot : SlotId → Bool
  /-- The nodes that have a place in the ready queue. -/
  place : NodeId → Bool

/-- The structure of a graph, without what activations change. -/
def Graph.layout (g : Graph σ) : Layout where
  node n := (g.nodes.get? n).map Node.layout
  port p := (g.ports.get? p).map Port.layout
  slot s := (g.slots.get? s).isSome
  place n := (g.ready.links.get? n).isSome

namespace Layout

/-- The ports of a live node are live, and those of a dead one are none. -/
def portsOf (Λ : Layout) (n : NodeId) (d : Direction) : List PortId :=
  (Λ.node n).elim [] fun node => (node.portsOf d).toList

/-- The port at the other end. -/
def peer? (Λ : Layout) (p : PortId) : Option PortId :=
  (Λ.port p).bind (·.peer?)

/-- Ports are listed by their owners, the two ends of a link name each other,
and no two links share a slot. -/
structure Proper (Λ : Layout) : Prop where
  mem_portsOf : ∀ {p n d}, p ∈ Λ.portsOf n d ↔
    ∃ port, Λ.port p = some port ∧ port.owner = n ∧ port.direction = d
  owner_live : ∀ {p port}, Λ.port p = some port →
    ∃ node, Λ.node port.owner = some node
  nodup : ∀ n d, (Λ.portsOf n d).Nodup
  link : ∀ {p port l}, Λ.port p = some port → port.link = some l →
    ∃ peer, Λ.port l.peer = some peer ∧ peer.link = some ⟨p, l.slot⟩ ∧
      peer.direction ≠ port.direction ∧ peer.owner ≠ port.owner
  slot_live : ∀ {p port l}, Λ.port p = some port → port.link = some l →
    Λ.slot l.slot = true
  slot_pair : ∀ {p q port port' l l'}, Λ.port p = some port →
    port.link = some l → Λ.port q = some port' → port'.link = some l' →
    l.slot = l'.slot → q = p ∨ q = l.peer
  place : ∀ n, Λ.place n = (Λ.node n).isSome

/-! ### The network of a layout -/

/-- How the nodes of a layout are connected. -/
def network (Λ : Layout) : Network where
  inputs n := Λ.portsOf n .input
  outputs n := (Λ.portsOf n .output).map Λ.peer?
  owner p := (Λ.port p).map (·.owner)
  feeder p := (Λ.peer? p).bind fun q => (Λ.port q).map (·.owner)
  optional p := (Λ.port p).any (·.flags.optional)
  required n := (Λ.node n).elim 0 (·.requiredIn)
  async n := (Λ.node n).any (·.flags.async)

variable {Λ : Layout}

lemma network_outputs (n : NodeId) :
    Λ.network.outputs n = (Λ.portsOf n .output).map Λ.peer? :=
  rfl

lemma network_optional (p : PortId) :
    Λ.network.optional p = (Λ.port p).any (·.flags.optional) :=
  rfl

lemma peer?_eq_some {p q : PortId} :
    Λ.peer? p = some q ↔ ∃ port s, Λ.port p = some port ∧
      port.link = some ⟨q, s⟩ := by
  simp only [peer?, Port.peer?, Option.bind_eq_some_iff, Option.map_eq_some_iff]
  constructor
  · rintro ⟨port, hp, l, hl, rfl⟩
    exact ⟨port, l.slot, hp, hl⟩
  · rintro ⟨port, s, hp, hl⟩
    exact ⟨port, hp, _, hl, rfl⟩

/-- The other end of the other end is the port itself. -/
lemma Proper.peer?_symm (hΛ : Λ.Proper) {p q : PortId}
    (h : Λ.peer? p = some q) : Λ.peer? q = some p := by
  obtain ⟨port, s, hp, hl⟩ := peer?_eq_some.mp h
  obtain ⟨peer, hq, hl', -, -⟩ := hΛ.link hp hl
  exact peer?_eq_some.mpr ⟨peer, s, hq, hl'⟩

lemma mem_targets {x : NodeId} {p : PortId} :
    p ∈ Λ.network.targets x ↔ ∃ q ∈ Λ.portsOf x .output, Λ.peer? q = some p := by
  simp [Network.targets, network, List.reduceOption_mem_iff]

/-- The feeder of an input owns the output at the other end. -/
lemma Proper.feeder_iff (hΛ : Λ.Proper) {c x : NodeId} {p : PortId}
    (hp : p ∈ Λ.portsOf c .input) :
    Λ.network.feeder p = some x ↔ p ∈ Λ.network.targets x := by
  obtain ⟨port, hport, -, hd⟩ := hΛ.mem_portsOf.mp hp
  rw [mem_targets]
  constructor
  · intro h
    simp only [network, Option.bind_eq_some_iff, Option.map_eq_some_iff] at h
    obtain ⟨q, hq, peer, hpeer, rfl⟩ := h
    obtain ⟨port', s, hport', hl⟩ := peer?_eq_some.mp hq
    obtain rfl : port = port' := by simpa [hport] using hport'
    obtain ⟨peer', hpeer', -, hne, -⟩ := hΛ.link hport hl
    obtain rfl : peer = peer' := by simpa [hpeer] using hpeer'
    refine ⟨q, hΛ.mem_portsOf.mpr ⟨peer, hpeer, rfl, ?_⟩, hΛ.peer?_symm hq⟩
    cases hdir : peer.direction
    · exact absurd (hdir.trans hd.symm) hne
    · rfl
  · rintro ⟨q, hq, hpeer⟩
    obtain ⟨out, hout, rfl, -⟩ := hΛ.mem_portsOf.mp hq
    simp [network, hΛ.peer?_symm hpeer, hout]

/-- The links of a proper layout are proper. -/
theorem Proper.network (hΛ : Λ.Proper) : Λ.network.Proper where
  owner hp := by
    obtain ⟨port, hport, hown, -⟩ := hΛ.mem_portsOf.mp hp
    simp [Layout.network, hport, hown]
  nodup n := hΛ.nodup n .input
  target {x p} hp := by
    obtain ⟨q, hq, hpeer⟩ := mem_targets.mp hp
    obtain ⟨out, hout, -, hd⟩ := hΛ.mem_portsOf.mp hq
    obtain ⟨out', s, hout', hl⟩ := peer?_eq_some.mp hpeer
    obtain rfl : out = out' := by simpa [hout] using hout'
    obtain ⟨port, hport, -, hne, -⟩ := hΛ.link hout hl
    refine ⟨port.owner, hΛ.mem_portsOf.mpr ⟨port, hport, rfl, ?_⟩⟩
    cases hdir : port.direction
    · rfl
    · exact absurd (hdir.trans hd.symm) hne
  feeder hp x := hΛ.feeder_iff hp
  irrefl {c p} hp h := by
    obtain ⟨port, hport, rfl, -⟩ := hΛ.mem_portsOf.mp hp
    simp only [Layout.network, Option.bind_eq_some_iff,
      Option.map_eq_some_iff] at h
    obtain ⟨q, hq, peer, hpeer, hown⟩ := h
    obtain ⟨port', s, hport', hl⟩ := peer?_eq_some.mp hq
    obtain rfl : port = port' := by simpa [hport] using hport'
    obtain ⟨peer', hpeer', -, -, hne⟩ := hΛ.link hport hl
    obtain rfl : peer = peer' := by simpa [hpeer] using hpeer'
    exact hne hown

/-! ### Links -/

/-- An input is linked exactly if it has a feeder. -/
lemma Proper.isSome_feeder (hΛ : Λ.Proper) (p : PortId) :
    (Λ.network.feeder p).isSome = (Λ.peer? p).isSome := by
  rcases hq : Λ.peer? p with _ | q
  · simp [Layout.network, hq]
  · obtain ⟨port, s, hp, hl⟩ := peer?_eq_some.mp hq
    obtain ⟨peer, hpeer, -⟩ := hΛ.link hp hl
    simp [Layout.network, hq, hpeer]

end Layout

end MediaGraph

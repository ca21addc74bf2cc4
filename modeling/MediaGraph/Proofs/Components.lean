/-
Activations of nodes that are not connected.

* `Graph.Connected`, `Graph.component`: nodes that are connected by links in
  either direction, and all that belongs to the nodes connected with one of them;
* `Linked.closed_component`, `Linked.disjoint_component`: a component is closed,
  and the components of nodes that are not connected have nothing in common;
* `Graph.Confined`: an activation keeps to a part of the graph, in what it changes
  and in what it reads;
* `Graph.Independent`: two activations do not notice each other, in either order;
* `AtRest.confined`, `AtRest.independent`: activations keep to a closed part with
  their driver, and those of disjoint closed parts are independent;
* `Action.components_independent`: in every graph that a client can make an
  activation keeps to the component of its driver, and activations from different
  components are independent.
-/
import Mathlib.Data.Set.Lattice
import Mathlib.Order.CompletePartialOrder
import MediaGraph.Adapter
import MediaGraph.Proofs.Locality
import MediaGraph.Proofs.Observation
import MediaGraph.Proofs.Quiescence
import MediaGraph.Proofs.Sizes

namespace MediaGraph

variable {σ : Type}

namespace Graph

/-! ### Components -/

/-- A chain of links, each taken in either direction, leads from one node to the
other. -/
def Connected (g : Graph σ) : NodeId → NodeId → Prop := Relation.EqvGen g.Feeds

/-- The entries that belong to a node: the node itself, its ports and the slots of
their links. -/
def BelongsTo (g : Graph σ) (n : NodeId) : Name → Prop
  | ⟨.node, m⟩ => m = n
  | ⟨.port, p⟩ => ∃ port, g.ports.get? p = some port ∧ port.owner = n
  | ⟨.slot, s⟩ => ∃ p port, g.ports.get? p = some port ∧ port.owner = n ∧
      g.slotId? p = some s

/-- All that belongs to the nodes that are connected with a node. -/
def component (g : Graph σ) (n : NodeId) : Set Name :=
  {x | ∃ m, g.Connected n m ∧ g.BelongsTo m x}

variable {g h : Graph σ} {P Q : Set Name} {n m a b : NodeId} {p q : PortId}

lemma node_mem_component : ⟨.node, m⟩ ∈ g.component n ↔ g.Connected n m :=
  ⟨fun ⟨_, hm, he⟩ => he ▸ hm, fun hm => ⟨m, hm, rfl⟩⟩

lemma port_mem_component {port : Port} (hp : g.ports.get? p = some port) :
    ⟨.port, p⟩ ∈ g.component n ↔ g.Connected n port.owner := by
  constructor
  · rintro ⟨m, hm, port', hp', rfl⟩
    obtain rfl := Option.some.inj (hp.symm.trans hp')
    exact hm
  · exact fun hm => ⟨_, hm, port, hp, rfl⟩

/-- What the two ends of each link have in common is the same for nodes that are
connected. -/
lemma Connected.map_eq {α : Type*} {f : NodeId → α} (hf : ∀ x c, g.Feeds x c → f x = f c)
    (h : g.Connected n m) : f n = f m := by
  induction h with
  | rel x c hxc => exact hf x c hxc
  | refl x => rfl
  | symm x y _ ih => exact ih.symm
  | trans x y z _ _ ih ih' => exact ih.trans ih'

/-- The owners of the two ends of a link are connected. -/
lemma Linked.connected_of_peer? (hg : g.Linked) {port port' : Port}
    (hp : g.ports.get? p = some port) (hq : g.ports.get? q = some port')
    (hpq : g.peer? p = some q) : g.Connected port.owner port'.owner := by
  -- the end of the link that is an input has the owner of the other as its feeder
  have hfeeds : ∀ {p q port port'}, g.ports.get? p = some port →
      g.ports.get? q = some port' → g.peer? p = some q → port.direction = .input →
      g.Feeds port'.owner port.owner := by
    intro p q port port' hp hq hpq hd
    obtain ⟨node, hnode, hcount⟩ := hg.listed hp
    refine ⟨p, ?_, ?_⟩
    · rw [inputsOf, hnode, Option.elim_some]
      rw [hd] at hcount
      exact List.count_pos_iff.mp (hcount ▸ Nat.one_pos)
    · rw [feeder?, hpq, Option.bind_some, hq, Option.map_some]
  obtain ⟨hqp, -, port₁, port₂, hp₁, hq₂, hd, -⟩ := hg.peer hpq
  obtain rfl := Option.some.inj (hp.symm.trans hp₁)
  obtain rfl := Option.some.inj (hq.symm.trans hq₂)
  cases hdir : port.direction with
  | input => exact .symm _ _ (.rel _ _ (hfeeds hp hq hpq hdir))
  | output =>
      refine .rel _ _ (hfeeds hq hp hqp ?_)
      cases hdir' : port'.direction with
      | input => rfl
      | output => exact absurd (hdir'.trans hdir.symm) hd

/-- A component is closed. -/
lemma Linked.closed_component (hg : g.Linked) (n : NodeId) :
    g.Closed (g.component n) where
  port hm hnode hp := by
    obtain ⟨port, hport, rfl, -⟩ := hg.lists hnode hp
    exact (port_mem_component hport).mpr (node_mem_component.mp hm)
  owner hp hport := node_mem_component.mpr ((port_mem_component hport).mp hp)
  link {p port l} hp hport hl := by
    have howner := (port_mem_component hport).mp hp
    have hpeer : g.peer? p = some l.peer := by simp [peer?, hport, Port.peer?, hl]
    obtain ⟨-, -, -, port', -, hport', -⟩ := hg.peer hpeer
    refine ⟨(port_mem_component hport').mpr
      (.trans _ _ _ howner (hg.connected_of_peer? hport hport' hpeer)), ?_⟩
    exact ⟨_, howner, p, port, hport, rfl, by simp [slotId?, hport, Port.slot?, hl]⟩

/-- Ports that share a slot belong to nodes that are connected. -/
lemma Linked.connected_of_slotId? (hg : g.Linked) {port port' : Port}
    (hp : g.ports.get? p = some port) (hq : g.ports.get? q = some port') {s : SlotId}
    (hps : g.slotId? p = some s) (hqs : g.slotId? q = some s) :
    g.Connected port.owner port'.owner := by
  have hlive := (hg.slotted p).2
  rw [slotOf?, hps, Option.bind_some, Option.isSome_some, eq_comm,
    Option.isSome_iff_exists] at hlive
  obtain ⟨c, hc⟩ := hlive
  obtain ⟨x, y, -, -, -, hxy, hslot⟩ := hg.slot hc
  rcases (hslot p).mp hps with rfl | rfl <;> rcases (hslot q).mp hqs with rfl | rfl
  · obtain rfl := Option.some.inj (hp.symm.trans hq)
    exact .refl _
  · exact hg.connected_of_peer? hp hq hxy
  · exact .symm _ _ (hg.connected_of_peer? hq hp hxy)
  · obtain rfl := Option.some.inj (hp.symm.trans hq)
    exact .refl _

/-- The components of nodes that are not connected have nothing in common. -/
lemma Linked.disjoint_component (hg : g.Linked) (hab : ¬ g.Connected a b) :
    Disjoint (g.component a) (g.component b) := by
  refine Set.disjoint_left.mpr ?_
  rintro ⟨_ | _ | _, x⟩ ⟨n, hn, hx⟩ ⟨m, hm, hx'⟩ <;> refine hab (.trans _ _ _ hn ?_)
  · obtain rfl : x = n := hx
    obtain rfl : x = m := hx'
    exact .symm _ _ hm
  · obtain ⟨port, hport, rfl⟩ := hx
    obtain ⟨port', hport', rfl⟩ := hx'
    obtain rfl := Option.some.inj (hport.symm.trans hport')
    exact .symm _ _ hm
  · obtain ⟨p, port, hp, rfl, hps⟩ := hx
    obtain ⟨q, port', hq, rfl, hqs⟩ := hx'
    exact .trans _ _ _ (hg.connected_of_slotId? hp hq hps hqs) (.symm _ _ hm)

/-! ### Activations of a closed part -/

variable [Processor σ]

/-- An activation keeps to a part of the graph. It calls nodes of the part only
and leaves everything else as it is. All that it reads is in the part: in every
graph of a client in which the part is the same, it ends in the same way after the
same calls, and leaves the same part behind. -/
structure Confined (g : Graph σ) (P : Set Name)
    (run : Graph σ → Activation σ) : Prop where
  calls : ∀ c ∈ (run g).callbacks, ⟨.node, c.node⟩ ∈ P
  rest : g.AgreeOn Pᶜ (run g).graph
  reads : ∀ others : List (Action σ), g.AgreeOn P (Action.graph others) →
    (run (Action.graph others)).result = (run g).result ∧
    (run (Action.graph others)).callbacks = (run g).callbacks ∧
    (run g).graph.AgreeOn P (run (Action.graph others)).graph

/-- Two activations do not notice each other. Whichever comes first, each of them
ends as it does alone, after the same calls, and together they leave the same graph
behind, but for the counters of the latest activation. -/
structure Independent (g : Graph σ) (run run' : Graph σ → Activation σ) : Prop where
  result : (run (run' g).graph).result = (run g).result
  result' : (run' (run g).graph).result = (run' g).result
  callbacks : (run (run' g).graph).callbacks = (run g).callbacks
  callbacks' : (run' (run g).graph).callbacks = (run' g).callbacks
  graph : { (run (run' g).graph).graph with stats := {} } =
    { (run' (run g).graph).graph with stats := {} }

omit [Processor σ] in
/-- Graphs with the same entries under all names of two parts and under all other
names have the same entries. -/
lemma AgreeOn.of_parts (HP : g.AgreeOn P h) (HQ : g.AgreeOn Q h)
    (H : g.AgreeOn (Pᶜ ∩ Qᶜ) h) : g.AgreeOn Set.univ h := by
  refine ⟨fun n _ => ?_, fun p _ => ?_, fun s _ => ?_⟩
  · by_cases hP : ⟨.node, n⟩ ∈ P
    · exact HP.node n hP
    · by_cases hQ : ⟨.node, n⟩ ∈ Q
      · exact HQ.node n hQ
      · exact H.node n ⟨hP, hQ⟩
  · by_cases hP : ⟨.port, p⟩ ∈ P
    · exact HP.port p hP
    · by_cases hQ : ⟨.port, p⟩ ∈ Q
      · exact HQ.port p hQ
      · exact H.port p ⟨hP, hQ⟩
  · by_cases hP : ⟨.slot, s⟩ ∈ P
    · exact HP.slot s hP
    · by_cases hQ : ⟨.slot, s⟩ ∈ Q
      · exact HQ.slot s hQ
      · exact H.slot s ⟨hP, hQ⟩

/-- A tidy graph between two activations. -/
structure AtRest (g : Graph σ) : Prop extends g.Tidy where
  driver : g.driver = none

namespace AtRest

/-- Every graph that actions make of the empty one is at rest. -/
lemma graph (actions : List (Action σ)) : (Action.graph actions).AtRest :=
  ⟨Action.tidy_graph actions, Action.driver_graph actions⟩

lemma activate (hg : g.AtRest) (budget : Nat) (mode : Mode) (n : NodeId) :
    (g.activate budget mode n).graph.AtRest :=
  ⟨hg.toTidy.activate budget mode n, driver_activate hg.driver budget mode n⟩

/-- Activations of a part that is the same in two graphs run alike. -/
lemma alike (hg : g.AtRest) (hh : h.AtRest) (hP : g.Closed P) (H : g.AgreeOn P h)
    (hn : ⟨.node, n⟩ ∈ P) (budget : Nat) (mode : Mode) :
    AlikeActivations P h (g.activate budget mode n) (h.activate budget mode n) := by
  have Hstart : Alike P h g h :=
    { closed := hP
      same := H
      rest := .refl _ _
      driver := hh.driver.trans hg.driver.symm
      queue := ⟨[], hg.idle, hh.idle, by simp⟩
      place := fun m hm => by
        rw [hg.shows.place hg.layout, hh.shows.place hh.layout, H.node m hm] }
  exact Hstart.activate hn budget mode

/-- An activation leaves everything outside of a closed part as it is. -/
lemma frame (hg : g.AtRest) (hP : g.Closed P) (hn : ⟨.node, n⟩ ∈ P) (budget : Nat)
    (mode : Mode) : g.AgreeOn Pᶜ (g.activate budget mode n).graph :=
  (hg.alike hg hP (.refl P g) hn budget mode).graph.rest

/-- An activation keeps to a closed part. -/
theorem confined (hg : g.AtRest) (hP : g.Closed P) (hn : ⟨.node, n⟩ ∈ P)
    (budget : Nat) (mode : Mode) : g.Confined P (Graph.activate budget mode n) where
  calls := (hg.alike hg hP (.refl P g) hn budget mode).inside
  rest := hg.frame hP hn budget mode
  reads others H :=
    have Halike := hg.alike (graph others) hP H hn budget mode
    ⟨Halike.result, Halike.callbacks, Halike.graph.same⟩

omit [Processor σ] in
/-- Graphs with the same entries that come from one graph without creating any are
the same but for the counters. -/
lemma eq_of_agreeOn {k : Graph σ} (hg : g.AtRest) (hh : h.AtRest)
    (hkg : k.Shrinks g) (hkh : k.Shrinks h) (H : g.AgreeOn Set.univ h) :
    { g with stats := {} } = { h with stats := {} } := by
  have hsize : g.created = h.created := hkg.created.trans hkh.created.symm
  have hnodes : g.nodes = h.nodes :=
    Arena.ext_get? (congrFun hsize .node) fun n => (H.node n trivial).symm
  have hports : g.ports = h.ports :=
    Arena.ext_get? (congrFun hsize .port) fun p => (H.port p trivial).symm
  have hslots : g.slots = h.slots :=
    Arena.ext_get? (congrFun hsize .slot) fun s => (H.slot s trivial).symm
  have hready : g.ready = h.ready :=
    hg.idle.ext hh.idle (hkg.places.trans hkh.places.symm) fun n => by
      rw [hg.shows.place hg.layout, hh.shows.place hh.layout, hnodes]
  rw [hnodes, hports, hslots, hready, hg.driver, hh.driver]

/-- Activations of closed parts that have nothing in common are independent. -/
theorem independent (hg : g.AtRest) (hP : g.Closed P) (hQ : g.Closed Q)
    (hPQ : Disjoint P Q) (ha : ⟨.node, a⟩ ∈ P) (hb : ⟨.node, b⟩ ∈ Q)
    (budget budget' : Nat) (mode mode' : Mode) :
    g.Independent (Graph.activate budget mode a) (Graph.activate budget' mode' b) := by
  have hPc : P ⊆ Qᶜ := Set.subset_compl_iff_disjoint_right.mpr hPQ
  have hQc : Q ⊆ Pᶜ := Set.subset_compl_iff_disjoint_left.mpr hPQ
  set ga := (g.activate budget mode a).graph
  set gb := (g.activate budget' mode' b).graph
  have hga : ga.AtRest := hg.activate budget mode a
  have hgb : gb.AtRest := hg.activate budget' mode' b
  have Ha := hg.frame hP ha budget mode
  have Hb := hg.frame hQ hb budget' mode'
  have Hab := hg.alike hga hQ (Ha.mono hQc) hb budget' mode'
  have Hba := hg.alike hgb hP (Hb.mono hPc) ha budget mode
  -- on its own part each activation does the same whether it comes first or second,
  -- and the other one keeps it; outside of both parts nothing changes
  have HP : (gb.activate budget mode a).graph.AgreeOn P
      (ga.activate budget' mode' b).graph :=
    Hba.graph.same.symm.trans (Hab.graph.rest.mono hPc)
  have HQ : (gb.activate budget mode a).graph.AgreeOn Q
      (ga.activate budget' mode' b).graph :=
    (Hba.graph.rest.mono hQc).symm.trans Hab.graph.same
  have hba : g.AgreeOn (Pᶜ ∩ Qᶜ) (gb.activate budget mode a).graph :=
    (Hb.mono Set.inter_subset_right).trans (Hba.graph.rest.mono Set.inter_subset_left)
  have hab : g.AgreeOn (Pᶜ ∩ Qᶜ) (ga.activate budget' mode' b).graph :=
    (Ha.mono Set.inter_subset_left).trans (Hab.graph.rest.mono Set.inter_subset_right)
  refine ⟨Hba.result, Hab.result, Hba.callbacks, Hab.callbacks, ?_⟩
  exact eq_of_agreeOn (hgb.activate budget mode a) (hga.activate budget' mode' b)
    ((Shrinks.activate budget' mode' b g).trans (.activate budget mode a gb))
    ((Shrinks.activate budget mode a g).trans (.activate budget' mode' b ga))
    (.of_parts HP HQ (hba.symm.trans hab))

end AtRest

end Graph

/-! ### Every graph of a client -/

/-- In every graph that actions make of the empty one, the component of a node
has the ports of its nodes and the slots and far ends of its links, and every
activation of the node keeps to this component: no node, port or slot outside of
it is read or changed. Activations of nodes that are not connected are independent:
each ends as it does alone, with the same error if it fails, and the graph that both
leave behind does not depend on their order. -/
theorem Action.components_independent [Processor σ] (actions : List (Action σ))
    (budget : Nat) (mode : Mode) (a : NodeId) :
    (Action.graph actions).Closed ((Action.graph actions).component a) ∧
    (Action.graph actions).Confined ((Action.graph actions).component a)
      (Graph.activate budget mode a) ∧
    ∀ b, ¬ (Action.graph actions).Connected a b → ∀ budget' mode',
      (Action.graph actions).Independent (Graph.activate budget mode a)
        (Graph.activate budget' mode' b) := by
  have hg := Graph.AtRest.graph actions
  have hlinked := hg.linked
  have hmem : ∀ n, ⟨.node, n⟩ ∈ (Action.graph actions).component n :=
    fun n => Graph.node_mem_component.mpr (.refl n)
  have hclosed := hlinked.closed_component
  exact ⟨hclosed a, hg.confined (hclosed a) (hmem a) budget mode,
    fun b hab budget' mode' => hg.independent (hclosed a) (hclosed b)
      (hlinked.disjoint_component hab) (hmem a) (hmem b) budget budget' mode mode'⟩

namespace Action

/-- Two sources, each with a sink of its own. -/
def twoPairs : List (Action (Adapter Empty)) :=
  [.addNode (.source (.ofBuffers 4)), .addNode (.sink {}),
    .addNode (.source (.ofBuffers 4)), .addNode (.sink {}),
    .addPort ⟨0⟩ .output {}, .addPort ⟨1⟩ .input {}, .addPort ⟨2⟩ .output {},
    .addPort ⟨3⟩ .input {}, .link ⟨0⟩ ⟨1⟩, .link ⟨2⟩ ⟨3⟩]

/-- The two pairs are not connected. -/
lemma not_connected_twoPairs : ¬ (graph twoPairs).Connected ⟨1⟩ ⟨2⟩ := by
  intro h
  have hpair : ∀ x c, (graph twoPairs).Feeds x c → x.index / 2 = c.index / 2 :=
    fun x c hxc => decide_eq_true_eq.mp (Graph.Feeds.of_all
      (r := fun x c => decide (x.index / 2 = c.index / 2)) (by decide +kernel) hxc)
  exact absurd (h.map_eq hpair) (by decide)

/-- The pull of the first sink and the push of the second source. -/
theorem components_independent_twoPairs :
    (graph twoPairs).Connected ⟨0⟩ ⟨1⟩ ∧ ¬ (graph twoPairs).Connected ⟨1⟩ ⟨2⟩ ∧
      (graph twoPairs).Independent (Graph.activate Graph.turnLimit .pull ⟨1⟩)
        (Graph.activate Graph.turnLimit .push ⟨2⟩) :=
  ⟨.rel _ _ ⟨⟨1⟩, by decide +kernel, by decide +kernel⟩, not_connected_twoPairs,
    (components_independent twoPairs Graph.turnLimit .pull ⟨1⟩).2.2 ⟨2⟩
      not_connected_twoPairs Graph.turnLimit .push⟩

end Action

end MediaGraph

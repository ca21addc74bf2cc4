/-
The network of a built graph.

* `Description.Realized`: the nodes of a network have the ports, the settings
  and the links of a description;
* `Description.Staffed`: every node has an adapter of the described kind;
* `Description.Untouched`: the flow of a graph that was just built;
* `Assembly.shows_of_build`: a built graph shows a realization of its
  description with an untouched flow.
-/
import Mathlib.Order.WellFoundedSet
import MediaGraph.Proofs.Building
import MediaGraph.Proofs.Network.Steps

namespace MediaGraph

variable {τ : Type}

/-! ### Networks of descriptions -/

/-- The kind of a built-in adapter. -/
def Adapter.kind? : Adapter τ → Option NodeKind
  | .source _ => some .source
  | .sink _ => some .sink
  | .mixer _ => some .mixer
  | .custom _ => none

lemma Assembly.kind?_processorOf (spec : NodeSpec) :
    (processorOf spec : Adapter τ).kind? = some spec.kind := by
  rw [processorOf]
  cases spec.kind <;> rfl

namespace Description

/-- The nodes of a network have the ports, the settings and the links of a
description. -/
structure Realized (d : Description) (N : Network) : Prop where
  accepted : d.Accepted
  proper : N.Proper
  inputs : ∀ {n : NodeId} {spec : NodeSpec}, d.nodes[n.index]? = some spec →
    (N.inputs n).length = spec.inputCount
  outputs : ∀ {n : NodeId} {spec : NodeSpec}, d.nodes[n.index]? = some spec →
    (N.outputs n).length = spec.outputCount
  optional : ∀ {n : NodeId} {spec : NodeSpec} {k : Nat} {p : PortId},
    d.nodes[n.index]? = some spec → (N.inputs n)[k]? = some p →
    N.optional p = spec.isOptional k
  required : ∀ {n : NodeId} {spec : NodeSpec}, d.nodes[n.index]? = some spec →
    N.required n = spec.requiredCount
  async : ∀ {n : NodeId} {spec : NodeSpec}, d.nodes[n.index]? = some spec →
    N.async n = spec.async
  feeds : ∀ {x c : NodeId}, N.Feeds x c → d.Linked x.index c.index
  outside : ∀ {n : NodeId}, d.nodes[n.index]? = none →
    N.inputs n = [] ∧ N.outputs n = []

/-- The handles of the nodes of a description are finitely many. -/
lemma finite_nodes (d : Description) :
    {n : NodeId | n.index < d.nodes.length}.Finite :=
  ((Set.finite_lt_nat d.nodes.length).image Handle.mk).subset
    fun n hn => ⟨n.index, hn, rfl⟩

namespace Realized

variable {d : Description} {N : Network} {n x c : NodeId} {p : PortId}

/-- A node with inputs is one of the description. -/
lemma exists_spec_of_input (h : d.Realized N) (hp : p ∈ N.inputs n) :
    ∃ spec, d.nodes[n.index]? = some spec := by
  rcases hn : d.nodes[n.index]? with _ | spec
  · simp [(h.outside hn).1] at hp
  · exact ⟨spec, rfl⟩

/-- A node that feeds another one is a source or a mixer. -/
lemma exists_spec_of_target (h : d.Realized N) (hp : p ∈ N.targets n) :
    ∃ spec, d.nodes[n.index]? = some spec ∧ spec.kind ≠ .sink := by
  rcases hn : d.nodes[n.index]? with _ | spec
  · simp [Network.targets, (h.outside hn).2] at hp
  · refine ⟨spec, rfl, fun hk => ?_⟩
    have hout := h.outputs hn
    simp [NodeSpec.outputCount, hk, List.length_eq_zero_iff] at hout
    simp [Network.targets, hout] at hp

/-- A node has at most one output. -/
lemma target_unique (h : d.Realized N) {q : PortId} (hp : p ∈ N.targets n)
    (hq : q ∈ N.targets n) : p = q := by
  obtain ⟨spec, hspec, hk⟩ := h.exists_spec_of_target hp
  have hout := h.outputs hspec
  obtain ⟨o, ho⟩ : ∃ o, N.outputs n = [o] := by
    rw [← List.length_eq_one_iff, hout, NodeSpec.outputCount]
    cases hkind : spec.kind <;> simp_all
  rw [Network.targets, ho, List.reduceOption_mem_iff, List.mem_singleton] at hp hq
  exact Option.some.inj (hp.trans hq.symm)

/-- A node feeds at most one input. -/
lemma input_unique (h : d.Realized N) {m : NodeId} {q : PortId}
    (hp : p ∈ N.inputs c) (hx : N.feeder p = some x) (hq : q ∈ N.inputs m)
    (hx' : N.feeder q = some x) : p = q :=
  h.target_unique ((h.proper.feeder hp x).mp hx) ((h.proper.feeder hq x).mp hx')

/-- A node feeds at most one node. -/
lemma feeds_unique (h : d.Realized N) {m : NodeId} (hc : N.Feeds x c)
    (hm : N.Feeds x m) : c = m := by
  obtain ⟨p, hp, hx⟩ := hc
  obtain ⟨q, hq, hx'⟩ := hm
  obtain rfl := h.input_unique hp hx hq hx'
  exact h.proper.owner_unique hp hq

/-- The two ends of a link are nodes of the description. -/
lemma lt_of_feeds (h : d.Realized N) (hx : N.Feeds x c) :
    x.index < d.nodes.length ∧ c.index < d.nodes.length := by
  obtain ⟨p, hp, hf⟩ := hx
  obtain ⟨spec, hc⟩ := h.exists_spec_of_input hp
  obtain ⟨spec', hx, -⟩ := h.exists_spec_of_target ((h.proper.feeder hp x).mp hf)
  exact ⟨(List.getElem?_eq_some_iff.mp hx).1, (List.getElem?_eq_some_iff.mp hc).1⟩

/-- A way along links leads along links of the description. -/
lemma transGen_linked (h : d.Realized N) (hx : Relation.TransGen N.Feeds x c) :
    Relation.TransGen d.Linked x.index c.index :=
  hx.lift Handle.index fun _ _ hxc => h.feeds hxc

/-- No accepted node requires nothing while it has required inputs. -/
lemma demandsNothing_eq_false (h : d.Realized N) (n : NodeId) :
    N.demandsNothing n = false := by
  rcases hn : d.nodes[n.index]? with _ | spec
  · simp [Network.demandsNothing, (h.outside hn).1]
  · have hlength := h.inputs hn
    rcases Nat.eq_zero_or_pos spec.inputCount with hzero | hpos
    · rw [hzero, List.length_eq_zero_iff] at hlength
      simp [Network.demandsNothing, hlength]
    · have := h.accepted.requiredCount_pos hn hpos
      rw [← h.required hn] at this
      simp [Network.demandsNothing, Nat.ne_of_gt this]

/-- Going up along links ends. -/
lemma wellFounded_feeds (h : d.Realized N) (hacyclic : d.Acyclic) :
    WellFounded N.Feeds := by
  have : IsStrictOrder NodeId (Relation.TransGen N.Feeds) :=
    { irrefl := fun n hn => hacyclic n.index (h.transGen_linked hn)
      trans := fun _ _ _ => .trans }
  refine Subrelation.wf (fun hxc => ?_) (Set.wellFoundedOn_iff.mp
    (d.finite_nodes.wellFoundedOn (r := Relation.TransGen N.Feeds)))
  exact ⟨.single hxc, h.lt_of_feeds hxc⟩

/-- Going down along links ends. -/
lemma wellFounded_swap (h : d.Realized N) (hacyclic : d.Acyclic) :
    WellFounded (Function.swap N.Feeds) := by
  have : IsStrictOrder NodeId (Function.swap (Relation.TransGen N.Feeds)) :=
    { irrefl := fun n hn => hacyclic n.index (h.transGen_linked hn)
      trans := fun _ _ _ hab hbc => Relation.TransGen.trans hbc hab }
  refine Subrelation.wf (fun hxc => ?_) (Set.wellFoundedOn_iff.mp
    (d.finite_nodes.wellFoundedOn
      (r := Function.swap (Relation.TransGen N.Feeds))))
  exact ⟨.single hxc, (h.lt_of_feeds hxc).symm⟩

end Realized

/-- Every node has an adapter of the described kind. -/
structure Staffed (d : Description) (s : Flow (Adapter τ)) : Prop where
  kind : ∀ {n : NodeId} {spec : NodeSpec}, d.nodes[n.index]? = some spec →
    ∃ x, s.processor n = some x ∧ x.kind? = some spec.kind
  outside : ∀ {n : NodeId}, d.nodes[n.index]? = none → s.processor n = none

/-- Nothing happened yet but that the linked sinks asked for data. -/
structure Untouched (d : Description) (N : Network) (s : Flow (Adapter τ)) :
    Prop where
  queued : ∀ n, s.queued n = false
  phase : ∀ n, s.phase n = .checkInput
  ready : ∀ n, s.ready n = 0
  counted : ∀ p, s.counted p = false
  slot : ∀ {n : NodeId} {p : PortId}, p ∈ N.inputs n →
    s.slot p = if (N.feeder p).isSome && d.isSink n then Slot.request {} else {}
  processor : ∀ n, s.processor n =
    d.nodes[n.index]?.map Assembly.processorOf

/-- The nodes of an untouched flow are staffed. -/
lemma Untouched.staffed {d : Description} {N : Network} {s : Flow (Adapter τ)}
    (h : d.Untouched N s) : d.Staffed s where
  kind {n spec} hn := ⟨_, by rw [h.processor, hn, Option.map_some],
    Assembly.kind?_processorOf spec⟩
  outside {n} hn := by rw [h.processor, hn, Option.map_none]

namespace Staffed

variable {d : Description} {N : Network} {s : Flow (Adapter τ)} {n : NodeId}
  {x : Adapter τ}

/-- The node of an adapter is a node of the description. -/
lemma exists_spec (h : d.Staffed s) (hx : s.processor n = some x) :
    ∃ spec, d.nodes[n.index]? = some spec ∧ x.kind? = some spec.kind := by
  rcases hn : d.nodes[n.index]? with _ | spec
  · simp [h.outside hn] at hx
  · obtain ⟨y, hy, hk⟩ := h.kind hn
    rw [hx] at hy
    cases hy
    exact ⟨spec, rfl, hk⟩

/-- A node of the description is a node of the graph. -/
lemma exists_node (h : d.Staffed s) {g : Graph (Adapter τ)} {Λ : Layout}
    {D : Option NodeId} (hs : g.Shows Λ D s) {spec : NodeSpec}
    (hn : d.nodes[n.index]? = some spec) :
    ∃ node, g.nodes.get? n = some node := by
  obtain ⟨x, hx, -⟩ := h.kind hn
  rw [← hs.flow] at hx
  obtain ⟨node, hnode, -⟩ := Option.map_eq_some_iff.mp hx
  exact ⟨node, hnode⟩

/-- Adapters have the ports that they are made for. -/
lemma suits (h : d.Staffed s) (hN : d.Realized N) (hx : s.processor n = some x) :
    N.Suits n x := by
  obtain ⟨spec, hspec, hk⟩ := h.exists_spec hx
  have hin := hN.inputs hspec
  have hout := hN.outputs hspec
  have hpos := hN.accepted.inputCount_pos hspec
  cases x with
  | source src =>
      have hk : spec.kind = .source := by simpa [Adapter.kind?] using hk.symm
      simp only [NodeSpec.inputCount, NodeSpec.outputCount, hk] at hin hout
      exact ⟨List.length_eq_zero_iff.mp hin, List.length_eq_one_iff.mp hout⟩
  | sink snk =>
      have hk : spec.kind = .sink := by simpa [Adapter.kind?] using hk.symm
      simp only [NodeSpec.inputCount, NodeSpec.outputCount, hk] at hin hout
      exact ⟨List.length_eq_one_iff.mp hin, List.length_eq_zero_iff.mp hout⟩
  | mixer m =>
      have hk : spec.kind = .mixer := by simpa [Adapter.kind?] using hk.symm
      simp only [NodeSpec.outputCount, hk] at hout
      refine ⟨?_, List.length_eq_one_iff.mp hout⟩
      rw [← List.length_pos_iff, hin]
      exact hpos hk
  | custom y => simp [Adapter.kind?] at hk

end Staffed

/-- The turn of a node is that of its adapter; a node without one does
nothing. -/
lemma Staffed.serves [Processor τ] {d : Description} {N : Network}
    {s : Flow (Adapter τ)} (h : d.Staffed s) (hN : d.Realized N)
    (D : Option NodeId) (n : NodeId) :
    N.Serves D n s (N.serve D n s) ∨
      N.serve D n s = { flow := s.dequeue n } := by
  rcases hx : s.processor n with _ | x
  · exact Or.inr (by rw [Network.serve, hx])
  · exact Or.inl (Network.serves hN.proper D hx (h.suits hN hx))

end Description

/-! ### Calls keep the kinds -/

namespace Network

variable {N : Network} {D : Option NodeId} {n : NodeId}

/-- A call leaves an adapter of the same kind. -/
lemma Acts.kind? {slot slot' : PortId → Slot} {x x' : Adapter τ} {side : Side}
    {r : Except ProcessError Verdict} (h : N.Acts n slot x side r slot' x') :
    x'.kind? = x.kind? := by
  cases h <;> rfl

/-- A turn keeps every node staffed. -/
lemma Serves.staffed {d : Description} (hN : N.Proper) {s : Flow (Adapter τ)}
    {v : FlowTurn (Adapter τ)} (h : N.Serves D n s v) (hs : d.Staffed s) :
    d.Staffed v.flow := by
  rcases h.data hN with ⟨-, hp⟩ | ⟨x, side, r, slot, x', hx, -, hacts, -, hp⟩
  · exact ⟨fun hn => by rw [hp]; exact hs.kind hn,
      fun hn => by rw [hp]; exact hs.outside hn⟩
  · constructor
    · intro m spec hm
      rw [hp, Function.update_apply]
      split
      · subst_vars
        obtain ⟨y, hy, hk⟩ := hs.kind hm
        rw [hx] at hy
        cases hy
        exact ⟨x', rfl, hacts.kind?.trans hk⟩
      · exact hs.kind hm
    · intro m hm
      rw [hp, Function.update_apply]
      split
      · subst_vars
        simp [hs.outside hm] at hx
      · exact hs.outside hm

end Network

/-- A turn keeps every node staffed. -/
lemma Description.Staffed.serve [Processor τ] {d : Description} {N : Network}
    {s : Flow (Adapter τ)} (h : d.Staffed s) (hN : d.Realized N)
    (D : Option NodeId) (n : NodeId) : d.Staffed (N.serve D n s).flow := by
  rcases h.serves hN D n with hserves | hidle
  · exact hserves.staffed hN.proper h
  · rw [hidle]
    exact ⟨h.kind, h.outside⟩

/-! ### Built graphs -/

namespace Graph.Follows

variable {d : Description} {g : Graph (Adapter τ)} {r : Nat → Nat → Prop}
  {asked : NodeId → Bool} {n : NodeId} {spec : NodeSpec} {p : PortId}

lemma exists_node (h : g.Follows (d.nodes.map NodeSpec.plan) r asked)
    (hn : d.nodes[n.index]? = some spec) :
    ∃ node, g.nodes.get? n = some node ∧ node.Follows g spec.plan :=
  h.node n.index spec.plan (by simp [hn])

lemma get?_nodes_eq_none (h : g.Follows (d.nodes.map NodeSpec.plan) r asked)
    (hn : d.nodes[n.index]? = none) : g.nodes.get? n = none := by
  refine Arena.get?_of_size_le ?_
  rw [h.size, List.length_map]
  exact List.getElem?_eq_none_iff.mp hn

/-- A field of a node is what the plan of the node says, or that of a node that
does not exist. -/
lemma field_eq (h : g.Follows (d.nodes.map NodeSpec.plan) r asked) {β : Type}
    (f : Node (Adapter τ) → β) (x : β)
    (hf : ∀ {node spec}, node.Follows g (NodeSpec.plan spec) → f node = x) :
    (g.nodes.get? n).elim x f = x := by
  rcases hn : d.nodes[n.index]? with _ | spec
  · rw [h.get?_nodes_eq_none hn, Option.elim_none]
  · obtain ⟨node, hget, hfol⟩ := h.exists_node hn
    rw [hget, Option.elim_some, hf hfol]

/-- An input is optional if its number says so. -/
lemma optional_eq (h : g.Follows (d.nodes.map NodeSpec.plan) r asked) {k : Nat}
    (hn : d.nodes[n.index]? = some spec)
    (hk : (g.layout.network.inputs n)[k]? = some p) :
    g.layout.network.optional p = spec.isOptional k := by
  obtain ⟨node, hget, hfol⟩ := h.exists_node hn
  rw [← h.wf.shows.inputs_eq hget, Array.getElem?_toList] at hk
  obtain ⟨port, hport, ho⟩ := hfol.optional k p hk
  rw [Layout.network_optional, h.wf.shows.port hport]
  simp only [NodeSpec.plan, List.getElem?_map] at ho
  obtain ⟨i, hi, hopt⟩ := Option.map_eq_some_iff.mp ho
  obtain ⟨_, hik⟩ := List.getElem?_eq_some_iff.mp hi
  rw [List.getElem_range] at hik
  subst hik
  simp [Port.layout, hopt]

/-- A node feeds another one over a link only. -/
lemma of_feeds (h : g.Follows (d.nodes.map NodeSpec.plan) r asked) {x c : NodeId}
    (hfeeds : g.layout.network.Feeds x c) : r x.index c.index := by
  obtain ⟨p, hp, hf⟩ := hfeeds
  obtain ⟨q, hq, hpeer⟩ :=
    Layout.mem_targets.mp ((h.wf.layout.feeder_iff hp).mp hf)
  obtain ⟨out', hout', hox, hod⟩ := h.wf.layout.mem_portsOf.mp hq
  obtain ⟨inp', hinp', hic, -⟩ := h.wf.layout.mem_portsOf.mp hp
  obtain ⟨out, hout, rfl⟩ := h.wf.shows.exists_port hout'
  obtain ⟨inp, hinp, rfl⟩ := h.wf.shows.exists_port hinp'
  obtain ⟨out₂, t, hout₂, hl⟩ := Layout.peer?_eq_some.mp hpeer
  obtain rfl := Option.some.inj (hout'.symm.trans hout₂)
  have := h.link q out ⟨p, t⟩ inp hout hod hl hinp
  rwa [show out.owner = x from hox, show inp.owner = c from hic] at this

/-- What is in the slot of an input depends on who asked for data. -/
lemma slot_flow (h : g.Follows (d.nodes.map NodeSpec.plan) r asked)
    (hp : p ∈ g.layout.network.inputs n) :
    g.flow.slot p = if (g.layout.network.feeder p).isSome && asked n then
      Slot.request {} else {} := by
  obtain ⟨port', hport', hown, hdir⟩ := h.wf.layout.mem_portsOf.mp hp
  obtain ⟨port, hport, rfl⟩ := h.wf.shows.exists_port hport'
  rw [h.wf.layout.isSome_feeder, ← h.wf.shows.peer?_eq, Graph.peer?, hport]
  have hdir : port.direction = .input := hdir
  rcases hl : port.link with _ | l
  · simp [Graph.flow, Graph.inputSlot?, hport, hdir, Port.slot?, Port.peer?, hl]
  · have := h.slot p port l hport hdir hl
    rw [show port.owner = n from hown] at this
    simp [Graph.flow, Graph.inputSlot?, hport, hdir, Port.slot?, Port.peer?, hl,
      this]

/-- A graph that follows the plans of a description shows a realization of
it. -/
lemma realized (h : g.Follows (d.nodes.map NodeSpec.plan) d.Linked asked)
    (hd : d.Accepted) : d.Realized g.layout.network where
  accepted := hd
  proper := h.wf.layout.network
  inputs hn := by
    obtain ⟨node, hget, hfol⟩ := h.exists_node hn
    simpa [← h.wf.shows.inputs_eq hget, NodeSpec.plan] using hfol.inputs
  outputs hn := by
    obtain ⟨node, hget, hfol⟩ := h.exists_node hn
    simpa [Layout.network_outputs, ← h.wf.shows.outputs_eq hget, NodeSpec.plan]
      using hfol.outputs
  optional hn hk := h.optional_eq hn hk
  required hn := by
    obtain ⟨node, hget, hfol⟩ := h.exists_node hn
    simpa [Layout.network, h.wf.shows.node hget, Node.layout, NodeSpec.plan]
      using hfol.requiredIn
  async hn := by
    obtain ⟨node, hget, hfol⟩ := h.exists_node hn
    simp [Layout.network, h.wf.shows.node hget, Node.layout, hfol.flags,
      NodeSpec.plan]
  feeds := h.of_feeds
  outside {n} hn := by
    have hnone : g.layout.node n = none := by
      simp [Graph.layout, h.get?_nodes_eq_none hn]
    simp [Layout.network, Layout.portsOf, hnone]

/-- Nothing happened yet in a graph that follows the plans of a description. -/
lemma untouched (h : g.Follows (d.nodes.map NodeSpec.plan) r d.isSink) :
    d.Untouched g.layout.network g.flow where
  queued n := by
    have : ¬ g.ready.contains n = true := by simp [h.queue.contains_iff]
    simpa [Graph.flow] using this
  phase n := h.field_eq (·.phase) _ fun hfol => hfol.phase
  ready n := h.field_eq (·.readyIn) _ fun hfol => hfol.readyIn
  counted p := by
    rcases hp : g.ports.get? p with _ | port
    · simp [Graph.flow, hp]
    · simp [Graph.flow, hp, h.fresh p port hp]
  slot hp := h.slot_flow hp
  processor n := by
    rcases hn : d.nodes[n.index]? with _ | spec
    · simp [Graph.flow, h.get?_nodes_eq_none hn]
    · obtain ⟨node, hget, hfol⟩ := h.exists_node hn
      simp [Graph.flow, hget, hfol.processor, NodeSpec.plan]

end Graph.Follows

/-- A built graph shows a realization of its description, and nothing happened
in it yet. -/
theorem Assembly.shows_of_build {d : Description} {a : Assembly τ}
    (hok : build d = .ok a) :
    ∃ Λ s, Λ.Proper ∧ a.graph.Shows Λ none s ∧ d.Realized Λ.network ∧
      d.Untouched Λ.network s := by
  obtain ⟨hd, h⟩ := follows_of_build hok
  exact ⟨a.graph.layout, a.graph.flow, h.wf.layout, h.driver ▸ h.wf.shows,
    h.realized hd, h.untouched⟩

end MediaGraph

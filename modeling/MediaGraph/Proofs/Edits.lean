/-
Edits keep a graph in order.

* `Layout.addNode`, `Layout.setNode`, `Layout.addPort`, `Layout.addLink`: what the
  edits that build a graph do to its layout, each with the lemma that a proper
  layout stays proper;
* `Graph.WellFormed`: the layout of a graph is proper, every node has its place
  in the queue, and the links of the queue describe a list;
* `WellFormed.addNode`, `WellFormed.addPort`, `WellFormed.link`,
  `WellFormed.setNode`, `WellFormed.modifySlotOf`: the edits keep it;
* `Graph.MakesLink`: what a link that was made does to the ports.
-/
import MediaGraph.Graph.Edit
import MediaGraph.Proofs.Network.OfGraph

namespace MediaGraph

variable {σ : Type}

namespace Layout

variable {Λ : Layout}

/-! ### Edits of layouts -/

/-- A node without ports appears. -/
def addNode (Λ : Layout) (n : NodeId) : Layout :=
  { Λ with
    node := Function.update Λ.node n (some ⟨#[], #[], 0, {}⟩)
    place := Function.update Λ.place n true }

/-- The settings of a node change. -/
def setNode (Λ : Layout) (n : NodeId) (ν : NodeLayout) : Layout :=
  { Λ with node := Function.update Λ.node n (some ν) }

/-- A port appears at a node, which has the layout `ν` from then on. -/
def addPort (Λ : Layout) (p : PortId) (port : Port) (ν : NodeLayout) : Layout :=
  { Λ with
    node := Function.update Λ.node port.owner (some ν)
    port := Function.update Λ.port p (some port) }

/-- Two ports are linked through a new slot. -/
def addLink (Λ : Layout) (p q : PortId) (out inp : Port) (s : SlotId) : Layout :=
  { Λ with
    port := Function.update
      (Function.update Λ.port p (some { out with link := some ⟨q, s⟩ })) q
      (some { inp with link := some ⟨p, s⟩ })
    slot := Function.update Λ.slot s true }

namespace Proper

lemma addNode (hΛ : Λ.Proper) {n : NodeId} (hn : Λ.node n = none) :
    (Λ.addNode n).Proper where
  mem_portsOf {p m d} := by
    by_cases hm : m = n
    · subst hm
      have hno : ¬ ∃ port, Λ.port p = some port ∧ port.owner = m ∧
          port.direction = d := by
        rintro ⟨port, hp, rfl, -⟩
        obtain ⟨ν, hν⟩ := hΛ.owner_live hp
        simp [hn] at hν
      have hnil : (Λ.addNode m).portsOf m d = [] := by
        cases d <;> simp [Layout.addNode, portsOf, NodeLayout.portsOf]
      rw [hnil]
      exact ⟨fun h => absurd h List.not_mem_nil, fun h => absurd h hno⟩
    · simpa [Layout.addNode, portsOf, hm] using hΛ.mem_portsOf (p := p)
  owner_live {p port} hp := by
    obtain ⟨ν, hν⟩ := hΛ.owner_live hp
    simp only [Layout.addNode, Function.update_apply]
    split
    · exact ⟨_, rfl⟩
    · exact ⟨ν, hν⟩
  nodup m d := by
    by_cases hm : m = n
    · subst hm
      cases d <;> simp [Layout.addNode, portsOf, NodeLayout.portsOf]
    · simpa [Layout.addNode, portsOf, hm] using hΛ.nodup m d
  link := hΛ.link
  slot_live := hΛ.slot_live
  slot_pair := hΛ.slot_pair
  place m := by
    simp only [Layout.addNode, Function.update_apply]
    split
    · rfl
    · exact hΛ.place m

lemma setNode (hΛ : Λ.Proper) {n : NodeId} {ν ν' : NodeLayout}
    (hn : Λ.node n = some ν) (hports : ∀ d, ν'.portsOf d = ν.portsOf d) :
    (Λ.setNode n ν').Proper := by
  have hp : ∀ m d, (Λ.setNode n ν').portsOf m d = Λ.portsOf m d := by
    intro m d
    by_cases hm : m = n
    · subst hm
      simp [Layout.setNode, portsOf, hn, hports]
    · simp [Layout.setNode, portsOf, hm]
  refine ⟨?_, ?_, ?_, hΛ.link, hΛ.slot_live, hΛ.slot_pair, ?_⟩
  · intro p m d
    rw [hp]
    exact hΛ.mem_portsOf
  · intro p port hport
    obtain ⟨μ, hμ⟩ := hΛ.owner_live hport
    simp only [Layout.setNode, Function.update_apply]
    split
    · exact ⟨_, rfl⟩
    · exact ⟨μ, hμ⟩
  · intro m d
    rw [hp]
    exact hΛ.nodup m d
  · intro m
    simp only [Layout.setNode, Function.update_apply]
    split
    · subst_vars
      simp [hΛ.place, hn]
    · exact hΛ.place m

lemma addPort (hΛ : Λ.Proper) {p : PortId} {port : Port} {ν ν' : NodeLayout}
    (hp : Λ.port p = none) (hl : port.link = none)
    (hn : Λ.node port.owner = some ν)
    (hports : ∀ d, ν'.portsOf d =
      if d = port.direction then (ν.portsOf d).push p else ν.portsOf d) :
    (Λ.addPort p port ν').Proper := by
  have hport : ∀ m d, (Λ.addPort p port ν').portsOf m d =
      if m = port.owner ∧ d = port.direction then Λ.portsOf m d ++ [p]
      else Λ.portsOf m d := by
    intro m d
    by_cases hm : m = port.owner
    · subst hm
      by_cases hd : d = port.direction <;>
        simp [Layout.addPort, portsOf, hn, hports, hd]
    · simp [Layout.addPort, portsOf, hm]
  have hnew : ∀ m d, p ∉ Λ.portsOf m d := by
    intro m d hmem
    obtain ⟨port', hport', -⟩ := hΛ.mem_portsOf.mp hmem
    simp [hp] at hport'
  refine ⟨?_, ?_, ?_, ?_, ?_, ?_, ?_⟩
  · intro q m d
    rw [hport]
    have hmem := hΛ.mem_portsOf (p := q) (n := m) (d := d)
    have hnew' := hnew m d
    simp only [Layout.addPort, Function.update_apply]
    grind
  · intro q port' hq
    simp only [Layout.addPort, Function.update_apply] at hq ⊢
    split
    · exact ⟨_, rfl⟩
    · split at hq
      · grind
      · exact hΛ.owner_live hq
  · intro m d
    rw [hport]
    have hnd := hΛ.nodup m d
    have hnew' := hnew m d
    grind
  · intro q port' l hq hl'
    simp only [Layout.addPort, Function.update_apply] at hq ⊢
    split at hq
    · grind
    · obtain ⟨peer, hpeer, h⟩ := hΛ.link hq hl'
      refine ⟨peer, ?_, h⟩
      grind
  · intro q port' l hq hl'
    simp only [Layout.addPort, Function.update_apply] at hq ⊢
    split at hq
    · grind
    · exact hΛ.slot_live hq hl'
  · intro q r port' port'' l l' hq hl' hr hl'' hs
    simp only [Layout.addPort, Function.update_apply] at hq hr
    have hpair := @Proper.slot_pair Λ hΛ q r
    grind
  · intro m
    simp only [Layout.addPort, Function.update_apply]
    split
    · subst_vars
      simp [hΛ.place, hn]
    · exact hΛ.place m

lemma addLink (hΛ : Λ.Proper) {p q : PortId} {out inp : Port} {s : SlotId}
    (hp : Λ.port p = some out) (hq : Λ.port q = some inp)
    (hout : out.direction = .output) (hinp : inp.direction = .input)
    (hpl : out.link = none) (hql : inp.link = none)
    (hne : out.owner ≠ inp.owner) (hs : Λ.slot s = false) :
    (Λ.addLink p q out inp s).Proper := by
  have hpq : p ≠ q := by
    rintro rfl
    grind
  refine ⟨?_, ?_, hΛ.nodup, ?_, ?_, ?_, hΛ.place⟩
  · intro r m d
    have hmem := hΛ.mem_portsOf (p := r) (n := m) (d := d)
    have hsame : (Λ.addLink p q out inp s).portsOf m d = Λ.portsOf m d := rfl
    rw [hsame, hmem]
    simp only [Layout.addLink, Function.update_apply]
    grind
  · intro r port hr
    have hlive := @Proper.owner_live Λ hΛ r
    have := hΛ.owner_live hp
    have := hΛ.owner_live hq
    simp only [Layout.addLink, Function.update_apply] at hr ⊢
    grind
  · intro r port l hr hl
    have hlink := @Proper.link Λ hΛ r
    simp only [Layout.addLink, Function.update_apply] at hr ⊢
    grind
  · intro r port l hr hl
    have hlive := @Proper.slot_live Λ hΛ r
    simp only [Layout.addLink, Function.update_apply] at hr ⊢
    grind
  · intro r t port port' l l' hr hl ht hl' he
    have hpair := @Proper.slot_pair Λ hΛ r t
    have hr' := @Proper.slot_live Λ hΛ r
    have ht' := @Proper.slot_live Λ hΛ t
    simp only [Layout.addLink, Function.update_apply] at hr ht
    grind

end Proper

end Layout

/-! ### Graphs in order -/

namespace Graph

/-- The layout of the graph is proper, every node has its place in the queue,
and the links of the queue describe a list. -/
structure WellFormed (g : Graph σ) : Prop where
  layout : g.layout.Proper
  size : g.ready.links.size = g.nodes.size
  queue : ∃ L, g.ready.Lists L

lemma WellFormed.shows {g : Graph σ} (h : g.WellFormed) :
    g.Shows g.layout g.driver g.flow :=
  ⟨rfl, rfl, rfl, h.queue⟩

/-- A fresh handle names nothing. -/
lemma get?_fresh {k : Kind} {α : Type} (a : Arena k α) : a.get? a.fresh = none :=
  Arena.get?_of_size_le (Nat.le_refl _)

/-- A live node changes. -/
lemma layout_setNode {g : Graph σ} {n : NodeId} {node : Node σ}
    (hn : g.nodes.get? n = some node) (f : Node σ → Node σ) :
    (g.modifyNode n f).layout = g.layout.setNode n (f node).layout := by
  ext1 <;> try rfl
  funext m
  simp only [Graph.layout, Graph.modifyNode, Layout.setNode,
    Arena.get?_modify, Function.update_apply, eq_comm (a := n)]
  split
  · subst_vars
    simp [hn]
  · rfl

/-- What becomes of the ports when two of them are linked. -/
lemma get?_ports_link {g : Graph σ} {p q : PortId} {out inp : Port} {s : SlotId}
    (hp : g.ports.get? p = some out) (hq : g.ports.get? q = some inp) (hpq : q ≠ p)
    (x : PortId) :
    ((Graph.modifyPort { g with slots := g.slots.insert {} } p
      ({ · with link := some ⟨q, s⟩ })).modifyPort q
      ({ · with link := some ⟨p, s⟩ })).ports.get? x =
      if x = q then some { inp with link := some ⟨p, s⟩ }
      else if x = p then some { out with link := some ⟨q, s⟩ }
      else g.ports.get? x := by
  simp only [Graph.modifyPort, Arena.get?_modify]
  rcases eq_or_ne x q with rfl | hxq
  · simp [hq, hpq.symm]
  · rcases eq_or_ne x p with rfl | hxp
    · simp [hp, hpq, hxq]
    · simp [hxq, hxp, hxq.symm, hxp.symm]

/-- The graph `g'` is `g` in which a slot with a fresh name joins the output `p`
and the input `q`, which had no link. -/
structure MakesLink (g : Graph σ) (p q : PortId) (out inp : Port) (g' : Graph σ) :
    Prop where
  output : g.ports.get? p = some out
  input : g.ports.get? q = some inp
  isOutput : out.direction = .output
  isInput : inp.direction = .input
  freeOutput : out.link = none
  freeInput : inp.link = none
  nodes : g'.nodes = g.nodes
  ports : ∀ x, g'.ports.get? x =
    if x = q then some { inp with link := some ⟨p, g.slots.fresh⟩ }
    else if x = p then some { out with link := some ⟨q, g.slots.fresh⟩ }
    else g.ports.get? x
  slots : g'.slots = g.slots.insert {}
  ready : g'.ready = g.ready
  driver : g'.driver = g.driver

namespace MakesLink

variable {g g' : Graph σ} {p q x : PortId} {out inp port : Port} {l : Link}

lemma ne (h : g.MakesLink p q out inp g') : q ≠ p := by
  rintro rfl
  obtain rfl := Option.some.inj (h.output.symm.trans h.input)
  exact absurd (h.isOutput.symm.trans h.isInput) (by decide)

/-- A port is one of the two ends, or as it was. -/
lemma port_cases (h : g.MakesLink p q out inp g')
    (hx : g'.ports.get? x = some port) :
    (x = p ∧ port = { out with link := some ⟨q, g.slots.fresh⟩ }) ∨
      (x = q ∧ port = { inp with link := some ⟨p, g.slots.fresh⟩ }) ∨
      (x ≠ p ∧ x ≠ q ∧ g.ports.get? x = some port) := by
  rw [h.ports] at hx
  split_ifs at hx with hxq hxp
  · exact Or.inr (Or.inl ⟨hxq, (Option.some.inj hx).symm⟩)
  · exact Or.inl ⟨hxp, (Option.some.inj hx).symm⟩
  · exact Or.inr (Or.inr ⟨hxp, hxq, hx⟩)

/-- A port keeps its owner, its direction and its flags. -/
lemma exists_port (h : g.MakesLink p q out inp g')
    (hx : g.ports.get? x = some port) :
    ∃ port', g'.ports.get? x = some port' ∧ port'.owner = port.owner ∧
      port'.direction = port.direction ∧ port'.flags = port.flags := by
  rw [h.ports]
  split_ifs with hxq hxp
  · obtain rfl := Option.some.inj (h.input.symm.trans (hxq ▸ hx))
    exact ⟨_, rfl, rfl, rfl, rfl⟩
  · obtain rfl := Option.some.inj (h.output.symm.trans (hxp ▸ hx))
    exact ⟨_, rfl, rfl, rfl, rfl⟩
  · exact ⟨port, hx, rfl, rfl, rfl⟩

lemma peer?_eq (h : g.MakesLink p q out inp g') (x : PortId) :
    g'.peer? x =
      if x = q then some p else if x = p then some q else g.peer? x := by
  rw [peer?, h.ports]
  split
  · rfl
  · split <;> rfl

/-- A port that had a link has the same peer. -/
lemma peer?_of_some (h : g.MakesLink p q out inp g') {y : PortId}
    (hx : g.peer? x = some y) : g'.peer? x = some y := by
  rw [h.peer?_eq, if_neg, if_neg, hx]
  · rintro rfl
    simp [peer?, h.output, Port.peer?, h.freeOutput] at hx
  · rintro rfl
    simp [peer?, h.input, Port.peer?, h.freeInput] at hx

/-- A link that was there before ends at neither of the two ports. -/
lemma peer_ne (h : g.MakesLink p q out inp g') (hwf : g.WellFormed)
    (hx : g.ports.get? x = some port) (hl : port.link = some l) :
    l.peer ≠ p ∧ l.peer ≠ q := by
  obtain ⟨layout, hlayout, hback, -⟩ := hwf.layout.link (hwf.shows.port hx) hl
  obtain ⟨peer, hpeer, rfl⟩ := hwf.shows.exists_port hlayout
  have hback : peer.link = some ⟨x, l.slot⟩ := hback
  constructor
  · intro he
    rw [he, h.output] at hpeer
    cases hpeer
    exact absurd (hback.symm.trans h.freeOutput) (by simp)
  · intro he
    rw [he, h.input] at hpeer
    cases hpeer
    exact absurd (hback.symm.trans h.freeInput) (by simp)

end MakesLink

lemma wellFormed_empty : (empty : Graph σ).WellFormed where
  layout := by
    constructor <;> simp [Graph.layout, Graph.empty, Layout.portsOf]
  size := rfl
  queue := ⟨[], ReadyQueue.lists_empty⟩

namespace WellFormed

variable {g g' : Graph σ} {n : NodeId} {p q : PortId}

/-- A node is added. -/
lemma addNode (h : g.WellFormed) {x : σ}
    (hok : (Graph.addNode x).run g = (.ok n, g')) :
    n = g.nodes.fresh ∧ g' = { g with
        nodes := g.nodes.insert { processor := x }
        ready := g.ready.register } ∧
      g'.WellFormed ∧ g'.layout = g.layout.addNode n := by
  cases hok
  have hfresh : g.ready.links.fresh = g.nodes.fresh := by
    simp [Arena.fresh, h.size]
  have hlayout : ({ g with
      nodes := g.nodes.insert { processor := x }
      ready := g.ready.register } : Graph σ).layout =
      g.layout.addNode g.nodes.fresh := by
    ext1 <;> try rfl
    · funext m
      simp only [Graph.layout, Layout.addNode, Arena.get?_insert,
        Function.update_apply]
      split <;> rfl
    · funext m
      simp only [Graph.layout, Layout.addNode, ReadyQueue.register,
        Arena.get?_insert, Function.update_apply, hfresh]
      split <;> rfl
  refine ⟨rfl, rfl, ⟨?_, ?_, ?_⟩, hlayout⟩
  · rw [hlayout]
    exact h.layout.addNode (by simp [Graph.layout, get?_fresh])
  · simp [ReadyQueue.register, h.size]
  · obtain ⟨L, hL⟩ := h.queue
    exact ⟨L, hL.register⟩

/-- A live node changes, with the same ports. -/
lemma modifyNode (h : g.WellFormed) {node : Node σ}
    (hn : g.nodes.get? n = some node) (f : Node σ → Node σ)
    (hf : ∀ d, (f node).portsOf d = node.portsOf d) :
    (g.modifyNode n f).WellFormed ∧
      (g.modifyNode n f).layout = g.layout.setNode n (f node).layout := by
  have hlayout := layout_setNode hn f
  refine ⟨⟨?_, ?_, h.queue⟩, hlayout⟩
  · rw [hlayout]
    refine h.layout.setNode (ν := node.layout) (by simp [Graph.layout, hn]) ?_
    intro d
    rw [Node.portsOf_layout, Node.portsOf_layout, hf]
  · simpa [Graph.modifyNode] using h.size

/-- A port is added to a live node. -/
lemma addPort (h : g.WellFormed) {d : Direction} {flags : PortFlags}
    (hok : (Graph.addPort n d flags).run g = (.ok p, g')) :
    ∃ node, g.nodes.get? n = some node ∧ p = g.ports.fresh ∧
      (g' = Graph.modifyNode
        { g with ports := g.ports.insert { direction := d, owner := n, flags } }
        n fun node => { node with
          inputs := if d = .input then node.inputs.push p else node.inputs
          outputs := if d = .output then node.outputs.push p else node.outputs
          requiredIn := if ({ direction := d, owner := n, flags } :
            Port).isRequired then node.requiredIn + 1 else node.requiredIn }) ∧
      g'.WellFormed := by
  rcases hn : g.nodes.get? n with _ | node
  · simp only [Graph.addPort, ExceptT.run, hn] at hok
    cases hok
  · simp only [Graph.addPort, ExceptT.run, hn] at hok
    split at hok
    · cases hok
    · cases hok
      refine ⟨node, rfl, rfl, rfl, ?_, ?_, h.queue⟩
      · -- the layout with the new port
        set port : Port := { direction := d, owner := n, flags }
        set f : Node σ → Node σ := fun node => { node with
          inputs := if d = .input then node.inputs.push g.ports.fresh
            else node.inputs
          outputs := if d = .output then node.outputs.push g.ports.fresh
            else node.outputs
          requiredIn := if port.isRequired then node.requiredIn + 1
            else node.requiredIn }
        have hlayout : (Graph.modifyNode { g with ports := g.ports.insert port } n
            f).layout = g.layout.addPort g.ports.fresh port (f node).layout := by
          ext1 <;> try rfl
          · funext m
            simp only [Graph.layout, Graph.modifyNode, Layout.addPort,
              Arena.get?_modify, Function.update_apply, eq_comm (a := n)]
            split
            · subst_vars
              simp [hn]
            · rfl
          · funext q
            simp only [Graph.layout, Graph.modifyNode, Layout.addPort,
              Arena.get?_insert, Function.update_apply]
            split <;> rfl
        rw [hlayout]
        refine h.layout.addPort (ν := node.layout) ?_ rfl ?_ ?_
        · simp [Graph.layout, get?_fresh]
        · simp [Graph.layout, port, hn]
        · intro d'
          cases d <;> cases d' <;>
            simp [f, port, Node.layout, NodeLayout.portsOf]
      · simpa [Graph.modifyNode] using h.size

/-- Two ports are linked. -/
lemma link (h : g.WellFormed) {s : SlotId}
    (hok : (Graph.link p q).run g = (.ok s, g')) :
    ∃ out inp, g.ports.get? p = some out ∧ g.ports.get? q = some inp ∧
      out.direction = .output ∧ inp.direction = .input ∧ out.link = none ∧
      inp.link = none ∧ s = g.slots.fresh ∧
      g' = (Graph.modifyPort { g with slots := g.slots.insert {} } p
          ({ · with link := some ⟨q, s⟩ })).modifyPort q
          ({ · with link := some ⟨p, s⟩ }) ∧
      g'.WellFormed := by
  rcases hp : g.ports.get? p with _ | out
  · simp only [Graph.link, ExceptT.run, hp] at hok
    cases hok
  · rcases hq : g.ports.get? q with _ | inp
    · simp only [Graph.link, ExceptT.run, hp, hq] at hok
      cases hok
    · simp only [Graph.link, ExceptT.run, hp, hq] at hok
      split_ifs at hok with hout hinp hpl hql hne
      all_goals try (cases hok; done)
      cases hok
      rw [not_not] at hout hinp
      simp only [Bool.not_eq_true, Option.isSome_eq_false_iff,
        Option.isNone_iff_eq_none] at hpl hql
      refine ⟨out, inp, rfl, rfl, hout, hinp, hpl, hql, rfl, rfl, ?_, h.size,
        h.queue⟩
      have hpq : q ≠ p := by
        rintro rfl
        grind
      have hlayout : ((Graph.modifyPort { g with slots := g.slots.insert {} } p
          ({ · with link := some ⟨q, g.slots.fresh⟩ })).modifyPort q
          ({ · with link := some ⟨p, g.slots.fresh⟩ })).layout =
          g.layout.addLink p q out.layout inp.layout g.slots.fresh := by
        ext1 <;> try rfl
        · funext r
          simp only [Graph.layout, Layout.addLink, get?_ports_link hp hq hpq,
            Function.update_apply]
          split
          · rfl
          · split <;> rfl
        · funext t
          simp only [Graph.layout, Graph.modifyPort, Layout.addLink,
            Arena.get?_insert, Function.update_apply]
          split <;> rfl
      rw [hlayout]
      exact h.layout.addLink (by simp [Graph.layout, hp])
        (by simp [Graph.layout, hq]) hout hinp hpl hql hne
        (by simp [Graph.layout, get?_fresh])

/-- What a link that was made does. -/
lemma makesLink (h : g.WellFormed) {s : SlotId}
    (hok : (Graph.link p q).run g = (.ok s, g')) :
    ∃ out inp, g.MakesLink p q out inp g' ∧ g'.WellFormed := by
  obtain ⟨out, inp, hp, hq, hout, hinp, hpl, hql, rfl, rfl, hwf⟩ := h.link hok
  have hpq : q ≠ p := by
    rintro rfl
    grind
  exact ⟨out, inp, ⟨hp, hq, hout, hinp, hpl, hql, rfl, get?_ports_link hp hq hpq,
    rfl, rfl, rfl⟩, hwf⟩

/-- The slot behind a port changes. -/
lemma modifySlotOf (h : g.WellFormed) (p : PortId) (f : Slot → Slot) :
    (g.modifySlotOf p f).WellFormed ∧
      (g.modifySlotOf p f).layout = g.layout := by
  have hlayout : (g.modifySlotOf p f).layout = g.layout := by
    rw [Graph.modifySlotOf]
    split
    · ext1 <;> try rfl
      funext t
      simp only [Graph.layout, Arena.get?_modify]
      split <;> simp
    · rfl
  refine ⟨⟨hlayout ▸ h.layout, ?_, ?_⟩, hlayout⟩
  · rw [Graph.modifySlotOf]
    split <;> exact h.size
  · rw [Graph.modifySlotOf]
    split <;> exact h.queue

end WellFormed

end Graph

end MediaGraph

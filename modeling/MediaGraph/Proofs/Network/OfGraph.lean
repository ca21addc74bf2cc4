/-
The flow of a graph.

* `Graph.flow`: what the graph shows of the demand in its network;
* `Graph.Shows`: the graph has a given layout, driver and flow, and its queue
  is in order;
* `Shows.enqueue`, `Shows.dequeue`, `Shows.setPhase`, `Shows.count`,
  `Shows.setSlot`: what the elementary changes of a graph do to its flow;
* `Shows.slotOf?_input`, `Shows.slotOf?_output`: what the two ends of a link
  see of its slot.
-/
import MediaGraph.Proofs.Layout
import MediaGraph.Proofs.Queue

namespace MediaGraph

variable {σ : Type}

namespace Graph

/-- The contents of the slot behind a linked input. -/
def inputSlot? (g : Graph σ) (p : PortId) : Option Slot :=
  (g.ports.get? p).bind fun port => match port.direction with
    | .input => port.slot?.bind g.slots.get?
    | .output => none

/-- The state of the demand in a graph. -/
def flow (g : Graph σ) : Flow σ where
  queued := g.ready.contains
  phase n := (g.nodes.get? n).elim .checkInput (·.phase)
  ready n := (g.nodes.get? n).elim 0 (·.readyIn)
  counted p := (g.ports.get? p).any (·.counted)
  slot p := (g.inputSlot? p).getD {}
  processor n := (g.nodes.get? n).map (·.processor)
  stats := g.stats

/-- The graph has this layout, driver and flow, and its queue is in order. -/
structure Shows (g : Graph σ) (Λ : Layout) (D : Option NodeId) (s : Flow σ) :
    Prop where
  layout : g.layout = Λ
  driver : g.driver = D
  flow : g.flow = s
  queue : ∃ L, g.ready.Lists L

namespace Shows

variable {g : Graph σ} {Λ : Layout} {D : Option NodeId} {s : Flow σ}
  {n : NodeId} {p : PortId}

/-! ### Looking at the graph -/

lemma node_eq (h : g.Shows Λ D s) (n : NodeId) :
    Λ.node n = (g.nodes.get? n).map Node.layout := by
  rw [← h.layout]
  rfl

lemma port_eq (h : g.Shows Λ D s) (p : PortId) :
    Λ.port p = (g.ports.get? p).map Port.layout := by
  rw [← h.layout]
  rfl

lemma node (h : g.Shows Λ D s) {node : Node σ}
    (hn : g.nodes.get? n = some node) : Λ.node n = some node.layout := by
  rw [h.node_eq, hn, Option.map_some]

lemma port (h : g.Shows Λ D s) {port : Port}
    (hp : g.ports.get? p = some port) : Λ.port p = some port.layout := by
  rw [h.port_eq, hp, Option.map_some]

/-- A node of the layout is a node of the graph. -/
lemma exists_node (h : g.Shows Λ D s) {node' : NodeLayout}
    (hn : Λ.node n = some node') :
    ∃ node, g.nodes.get? n = some node ∧ node.layout = node' := by
  rwa [h.node_eq, Option.map_eq_some_iff] at hn

/-- A port of the layout is a port of the graph. -/
lemma exists_port (h : g.Shows Λ D s) {port' : Port}
    (hp : Λ.port p = some port') :
    ∃ port, g.ports.get? p = some port ∧ port.layout = port' := by
  rwa [h.port_eq, Option.map_eq_some_iff] at hp

lemma portsOf (h : g.Shows Λ D s) {node : Node σ}
    (hn : g.nodes.get? n = some node) (d : Direction) :
    Λ.portsOf n d = (node.portsOf d).toList := by
  rw [Layout.portsOf, h.node hn, Option.elim_some, Node.portsOf_layout]

/-- The inputs of a live node are those of the network. -/
lemma inputs_eq (h : g.Shows Λ D s) {node : Node σ}
    (hn : g.nodes.get? n = some node) :
    node.inputs.toList = Λ.network.inputs n :=
  (h.portsOf hn .input).symm

/-- The outputs of a live node are those of the layout. -/
lemma outputs_eq (h : g.Shows Λ D s) {node : Node σ}
    (hn : g.nodes.get? n = some node) :
    node.outputs.toList = Λ.portsOf n .output :=
  (h.portsOf hn .output).symm

lemma congr {t : Flow σ} (h : g.Shows Λ D s) (hs : s = t) : g.Shows Λ D t :=
  hs ▸ h

/-- An operation applied to the members of a list one after the other. -/
lemma foldl {α : Type*} {f : Graph σ → α → Graph σ} {f' : Flow σ → α → Flow σ}
    {l : List α} (h : g.Shows Λ D s)
    (step : ∀ a ∈ l, ∀ {g : Graph σ} {s : Flow σ}, g.Shows Λ D s →
      (f g a).Shows Λ D (f' s a)) :
    (l.foldl f g).Shows Λ D (l.foldl f' s) := by
  induction l generalizing g s with
  | nil => exact h
  | cons a l ih =>
      exact ih (step a (by simp) h) fun b hb => step b (by simp [hb])

/-! ### The queue -/

lemma place (hΛ : Λ.Proper) (h : g.Shows Λ D s) (n : NodeId) :
    (g.ready.links.get? n).isSome = (g.nodes.get? n).isSome := by
  have := hΛ.place n
  rw [← h.layout] at this
  simpa [Graph.layout] using this

lemma contains_pushBack {q : ReadyQueue} {L : List NodeId} (h : q.Lists L)
    (hn : (q.links.get? n).isSome) :
    (q.pushBack n).2.contains = Function.update q.contains n true ∧
      ∃ L, (q.pushBack n).2.Lists L := by
  obtain ⟨link, hlink⟩ := Option.isSome_iff_exists.mp hn
  by_cases hL : n ∈ L
  · rw [h.pushBack_eq_self (Or.inl hL)]
    refine ⟨?_, L, h⟩
    rw [← h.contains_iff.mpr hL, Function.update_eq_self]
  · obtain ⟨-, h'⟩ := h.pushBack hL hlink
    refine ⟨funext fun m => ?_, _, h'⟩
    rw [Bool.eq_iff_iff, h'.contains_iff, Function.update_apply]
    split <;> simp_all [h.contains_iff]

lemma contains_remove {q : ReadyQueue} {L : List NodeId} (h : q.Lists L) :
    (q.remove n).2.contains = Function.update q.contains n false ∧
      ∃ L, (q.remove n).2.Lists L := by
  by_cases hL : n ∈ L
  · obtain ⟨A, B, rfl⟩ := List.append_of_mem hL
    obtain ⟨-, h'⟩ := h.remove
    refine ⟨funext fun m => ?_, _, h'⟩
    have hnd := h.nodup
    rw [Bool.eq_iff_iff, h'.contains_iff, Function.update_apply]
    split
    · subst_vars
      simp only [Bool.false_eq_true, iff_false]
      grind
    · rw [h.contains_iff]
      grind
  · rw [h.remove_eq_self hL]
    refine ⟨?_, L, h⟩
    have : q.contains n = false := by
      simpa using fun hc => hL (h.contains_iff.mp hc)
    rw [← this, Function.update_eq_self]

/-- A live node is queued. -/
lemma enqueue (hΛ : Λ.Proper) (h : g.Shows Λ D s) {ν : NodeLayout}
    (hν : Λ.node n = some ν) : (g.enqueue n).Shows Λ D (s.enqueue n) := by
  obtain ⟨L, hL⟩ := h.queue
  obtain ⟨node, hn, -⟩ := h.exists_node hν
  obtain ⟨hc, hL'⟩ := contains_pushBack (n := n) hL (by simp [place hΛ h, hn])
  refine ⟨?_, h.driver, ?_, hL'⟩
  · rw [← h.layout]
    simp [Graph.layout, Graph.enqueue]
  · rw [← h.flow]
    ext1 <;> first | rfl | exact hc

/-- A node is taken out of the queue. -/
lemma dequeue (h : g.Shows Λ D s) (n : NodeId) :
    (g.dequeue n).Shows Λ D (s.dequeue n) := by
  obtain ⟨L, hL⟩ := h.queue
  obtain ⟨hc, hL'⟩ := contains_remove (n := n) hL
  refine ⟨?_, h.driver, ?_, hL'⟩
  · rw [← h.layout]
    simp [Graph.layout, Graph.dequeue]
  · rw [← h.flow]
    ext1 <;> first | rfl | exact hc

/-! ### Nodes and ports -/

/-- A change of a live node that leaves its layout alone. -/
lemma modifyNode (h : g.Shows Λ D s) {node : Node σ}
    (hn : g.nodes.get? n = some node) (f : Node σ → Node σ)
    (hf : (f node).layout = node.layout) :
    (g.modifyNode n f).Shows Λ D { s with
      phase := Function.update s.phase n (f node).phase
      ready := Function.update s.ready n (f node).readyIn
      processor := Function.update s.processor n (some (f node).processor) } := by
  refine ⟨?_, h.driver, ?_, h.queue⟩
  · rw [← h.layout]
    ext1 <;> try rfl
    funext m
    simp only [Graph.layout, Graph.modifyNode, Arena.get?_modify]
    split
    · subst_vars
      simp [hn, hf]
    · rfl
  · rw [← h.flow]
    ext1 <;> try rfl
    all_goals
      funext m
      simp only [Graph.flow, Graph.modifyNode, Arena.get?_modify,
        Function.update_apply, eq_comm (a := n)]
      split
      · subst_vars
        simp [hn]
      · rfl

/-- A live node is put into a phase. -/
lemma setPhase (h : g.Shows Λ D s) {ν : NodeLayout} (hν : Λ.node n = some ν)
    (φ : Phase) :
    (g.modifyNode n ({ · with phase := φ })).Shows Λ D (s.setPhase n φ) := by
  obtain ⟨node, hn, -⟩ := h.exists_node hν
  refine (h.modifyNode hn ({ · with phase := φ }) rfl).congr ?_
  rw [← h.flow]
  ext1 <;> simp [Flow.setPhase, Graph.flow, hn]

/-- A call of a live node leaves a new processor behind. -/
lemma afterCall (h : g.Shows Λ D s) {ν : NodeLayout} (hν : Λ.node n = some ν)
    (side : Side) (x : σ) :
    (g.modifyNode n (Graph.afterCall side x)).Shows Λ D
      (s.setProcessor n x) := by
  obtain ⟨node, hn, -⟩ := h.exists_node hν
  refine (h.modifyNode hn (Graph.afterCall side x) (by cases side <;> rfl)).congr
    ?_
  rw [← h.flow]
  cases side <;> ext1 <;>
    simp [Flow.setProcessor, Graph.flow, hn, Graph.afterCall]

/-- A change of the count of a live node. -/
lemma setReady (h : g.Shows Λ D s) {ν : NodeLayout} (hν : Λ.node n = some ν)
    (f : Nat → Nat) :
    (g.modifyNode n fun node => { node with readyIn := f node.readyIn }).Shows
      Λ D { s with ready := Function.update s.ready n (f (s.ready n)) } := by
  obtain ⟨node, hn, -⟩ := h.exists_node hν
  refine (h.modifyNode hn (fun node => { node with readyIn := f node.readyIn })
    rfl).congr ?_
  rw [← h.flow]
  ext1 <;> simp [Graph.flow, hn]

/-- A live port is marked as counted or not counted. -/
lemma setCounted (h : g.Shows Λ D s) {π : Port} (hπ : Λ.port p = some π)
    (b : Bool) :
    (g.modifyPort p ({ · with counted := b })).Shows Λ D
      { s with counted := Function.update s.counted p b } := by
  obtain ⟨port, hp, -⟩ := h.exists_port hπ
  refine ⟨?_, h.driver, ?_, h.queue⟩
  · rw [← h.layout]
    ext1 <;> try rfl
    funext q
    simp only [Graph.layout, Graph.modifyPort, Arena.get?_modify]
    split
    · subst_vars
      simp [hp, Port.layout]
    · rfl
  · rw [← h.flow]
    ext1 <;> try rfl
    · funext q
      simp only [Graph.flow, Graph.modifyPort, Arena.get?_modify,
        Function.update_apply, eq_comm (a := p)]
      split
      · subst_vars
        simp [hp]
      · rfl
    · funext q
      simp only [Graph.flow, Graph.modifyPort, Graph.inputSlot?,
        Arena.get?_modify]
      split
      · subst_vars
        rw [hp]
        rfl
      · rfl

/-- An input of a live node is counted. -/
lemma count (h : g.Shows Λ D s) {ν : NodeLayout} {π : Port}
    (hν : Λ.node n = some ν) (hπ : Λ.port p = some π) :
    (g.count n p).Shows Λ D (s.count n p) :=
  (h.setCounted hπ true).setReady hν (· + 1)

/-- An input of a live node is taken back out of the count. -/
lemma uncount (h : g.Shows Λ D s) {ν : NodeLayout} {π : Port}
    (hν : Λ.node n = some ν) (hπ : Λ.port p = some π) :
    ((g.modifyPort p ({ · with counted := false })).modifyNode n
      fun node => { node with readyIn := node.readyIn - 1 }).Shows Λ D
      (s.uncount n p) :=
  (h.setCounted hπ false).setReady hν (· - 1)

/-- A new round of counting starts. -/
lemma resetReady (hΛ : Λ.Proper) (h : g.Shows Λ D s) {ν : NodeLayout}
    (hν : Λ.node n = some ν) :
    (g.resetReady n).Shows Λ D (Λ.network.reset n s) := by
  have key : ∀ (l : List PortId) {g : Graph σ} {s : Flow σ},
      g.Shows Λ D s → (∀ p ∈ l, ∃ π, Λ.port p = some π) →
      (l.foldl (fun g p => g.modifyPort p ({ · with counted := false })) g).Shows
        Λ D { s with counted := fun p => if p ∈ l then false else s.counted p }
      := by
    intro l
    induction l with
    | nil => exact fun h _ => by simpa using h
    | cons p l ih =>
        intro g s h hl
        obtain ⟨π, hπ⟩ := hl p (by simp)
        refine (ih (h.setCounted hπ false) fun q hq => hl q (by simp [hq])).congr
          ?_
        ext1 <;> try rfl
        funext q
        grind [Function.update_apply]
  obtain ⟨node, hn, -⟩ := h.exists_node hν
  rw [Graph.resetReady, hn]
  simp only [← Array.foldl_toList, h.inputs_eq hn]
  refine (key _ (h.setReady hν fun _ => 0) fun p hp => ?_).congr rfl
  obtain ⟨π, hπ, -⟩ := hΛ.mem_portsOf.mp hp
  exact ⟨π, hπ⟩

/-! ### Slots -/

/-- A linked input of the layout has a link and a live slot in the graph. -/
lemma exists_link (hΛ : Λ.Proper) (h : g.Shows Λ D s) {p q : PortId}
    (hp : Λ.peer? p = some q) :
    ∃ port l c, g.ports.get? p = some port ∧ port.link = some l ∧ l.peer = q ∧
      g.slots.get? l.slot = some c := by
  obtain ⟨port', sl, hport', hl⟩ := Layout.peer?_eq_some.mp hp
  have hlive := hΛ.slot_live hport' hl
  obtain ⟨port, hport, rfl⟩ := h.exists_port hport'
  rw [← h.layout] at hlive
  obtain ⟨c, hc⟩ := Option.isSome_iff_exists.mp hlive
  exact ⟨port, _, c, hport, hl, rfl, hc⟩

lemma peer?_eq (h : g.Shows Λ D s) (p : PortId) : g.peer? p = Λ.peer? p := by
  rw [Layout.peer?, h.port_eq, Graph.peer?]
  rcases g.ports.get? p with _ | port <;> rfl

/-- What an input sees of its slot. -/
lemma slotOf?_input (hΛ : Λ.Proper) (h : g.Shows Λ D s)
    (hp : p ∈ Λ.network.inputs n) :
    g.slotOf? p = (Λ.network.linked? p).map s.slot := by
  obtain ⟨port', hport', -, hd⟩ := hΛ.mem_portsOf.mp hp
  obtain ⟨port, hport, rfl⟩ := h.exists_port hport'
  rw [Network.linked?, hΛ.isSome_feeder]
  rcases hq : Λ.peer? p with _ | q
  · rw [Layout.peer?, hport', Option.bind_some] at hq
    have hl : port.link = none := by simpa [Port.peer?, Port.layout] using hq
    simp [Graph.slotOf?, Graph.slotId?, hport, Port.slot?, hl]
  · obtain ⟨_, l, c, hport₂, hl, -, hc⟩ := exists_link hΛ h hq
    obtain rfl := Option.some.inj (hport.symm.trans hport₂)
    rw [← h.flow]
    simp [Graph.slotOf?, Graph.slotId?, Graph.flow, Graph.inputSlot?, hport,
      Port.slot?, hl, hc, show port.direction = .input from hd]

/-- Both ends of a link see the same slot. -/
lemma slotOf?_peer (hΛ : Λ.Proper) (h : g.Shows Λ D s) {q : PortId}
    (hq : Λ.peer? q = some p) : g.slotOf? q = g.slotOf? p := by
  obtain ⟨port', sl, hport', hl⟩ := Layout.peer?_eq_some.mp hq
  obtain ⟨peer', hpeer', hl', -⟩ := hΛ.link hport' hl
  obtain ⟨port, hport, rfl⟩ := h.exists_port hport'
  obtain ⟨peer, hpeer, rfl⟩ := h.exists_port hpeer'
  simp only [Port.layout] at hl hl'
  simp [Graph.slotOf?, Graph.slotId?, hport, hpeer, Port.slot?, hl, hl']

/-- What an output sees of its slot. -/
lemma slotOf?_output (hΛ : Λ.Proper) (h : g.Shows Λ D s) {q : PortId}
    (hq : q ∈ Λ.portsOf n .output) :
    g.slotOf? q = (Λ.peer? q).map s.slot := by
  rcases hp : Λ.peer? q with _ | p
  · obtain ⟨port', hport', -⟩ := hΛ.mem_portsOf.mp hq
    obtain ⟨port, hport, rfl⟩ := h.exists_port hport'
    rw [Layout.peer?, hport', Option.bind_some] at hp
    have hl : port.link = none := by simpa [Port.peer?, Port.layout] using hp
    simp [Graph.slotOf?, Graph.slotId?, hport, Port.slot?, hl]
  · have hmem : p ∈ Λ.network.targets n := Layout.mem_targets.mpr ⟨q, hq, hp⟩
    obtain ⟨c, hc⟩ := hΛ.network.target hmem
    have hf := (hΛ.network.feeder hc n).mpr hmem
    rw [slotOf?_peer hΛ h hp, slotOf?_input hΛ h hc]
    simp [Network.linked?, hf]

/-- The slot of a linked input is written. -/
lemma setSlot (hΛ : Λ.Proper) (h : g.Shows Λ D s)
    (hp : p ∈ Λ.network.inputs n) (hf : (Λ.network.feeder p).isSome)
    (f : Slot → Slot) :
    (g.modifySlotOf p f).Shows Λ D (s.setSlot p (f (s.slot p))) := by
  obtain ⟨port', hport', -, hd⟩ := hΛ.mem_portsOf.mp hp
  rw [hΛ.isSome_feeder] at hf
  obtain ⟨q, hq⟩ := Option.isSome_iff_exists.mp hf
  obtain ⟨port, l, c, hport, hl, rfl, hc⟩ := exists_link hΛ h hq
  obtain rfl := Option.some.inj ((h.port hport).symm.trans hport')
  have hslot : g.modifySlotOf p f =
      { g with slots := g.slots.modify l.slot f } := by
    simp [Graph.modifySlotOf, Graph.slotId?, hport, Port.slot?, hl]
  rw [hslot]
  refine ⟨?_, h.driver, ?_, h.queue⟩
  · rw [← h.layout]
    ext1 <;> try rfl
    funext t
    simp only [Graph.layout, Arena.get?_modify]
    split <;> simp
  · rw [← h.flow]
    ext1 <;> try rfl
    funext r
    simp only [Graph.flow, Flow.setSlot, Graph.inputSlot?, Function.update_apply]
    split
    · subst_vars
      simp [hport, show port.direction = .input from hd, Port.slot?, hl, hc]
    · -- another input shares no slot with this one
      rename_i hr
      rcases hport₂ : g.ports.get? r with _ | port₂
      · rfl
      · rcases hl₂ : port₂.link with _ | l₂
        · simp [Port.slot?, hl₂]
        · rcases hd₂ : port₂.direction
          · have hne : l.slot ≠ l₂.slot := by
              intro he
              rcases hΛ.slot_pair (h.port hport) hl (h.port hport₂) hl₂ he with
                rfl | rfl
              · exact hr rfl
              · obtain ⟨peer, hpeer, -, hdir, -⟩ := hΛ.link (h.port hport) hl
                rw [h.port hport₂] at hpeer
                obtain rfl := Option.some.inj hpeer
                exact hdir (hd₂.trans hd.symm)
            simp [hd₂, Port.slot?, hl₂, Arena.get?_modify, hne]
          · simp [hd₂]

/-- A slot is written through an output that is linked to it. -/
lemma setSlot_output (hΛ : Λ.Proper) (h : g.Shows Λ D s) {q : PortId}
    (hq : q ∈ Λ.portsOf n .output) (hp : Λ.peer? q = some p) (f : Slot → Slot) :
    (g.modifySlotOf q f).Shows Λ D (s.setSlot p (f (s.slot p))) := by
  have hmem : p ∈ Λ.network.targets n := Layout.mem_targets.mpr ⟨q, hq, hp⟩
  obtain ⟨c, hc⟩ := hΛ.network.target hmem
  have hf := (hΛ.network.feeder hc n).mpr hmem
  have heq : g.modifySlotOf q f = g.modifySlotOf p f := by
    obtain ⟨port', sl, hport', hl⟩ := Layout.peer?_eq_some.mp hp
    obtain ⟨peer', hpeer', hl', -⟩ := hΛ.link hport' hl
    obtain ⟨port, hport, rfl⟩ := h.exists_port hport'
    obtain ⟨peer, hpeer, rfl⟩ := h.exists_port hpeer'
    simp only [Port.layout] at hl hl'
    simp [Graph.modifySlotOf, Graph.slotId?, hport, hpeer, Port.slot?, hl, hl']
  rw [heq]
  exact h.setSlot hΛ hc (by simp [hf]) f

/-- A slot that is written through an unlinked port is dropped. -/
lemma modifySlotOf_unlinked (h : g.Shows Λ D s) (hp : Λ.peer? p = none)
    (f : Slot → Slot) : g.modifySlotOf p f = g := by
  rw [← h.peer?_eq] at hp
  have : g.slotId? p = none := by
    simp only [Graph.peer?, Graph.slotId?, Port.peer?, Port.slot?] at hp ⊢
    rcases hport : g.ports.get? p with _ | port
    · rfl
    · simpa [hport] using hp
  simp [Graph.modifySlotOf, this]

end Shows

end Graph

end MediaGraph

/-
The scheduler of a graph works on its flow.

Every operation of the scheduler changes the flow of a graph as the network of
its layout says, and changes nothing else about what the graph shows.

* `Shows.checkInput`, `Shows.checkOutput`, `Shows.callback`: the phases;
* `Shows.turn?`, `Shows.turn?_eq_none`: the turn of a graph is the turn of a
  node that waits, and there is none exactly if nobody waits.
-/
import MediaGraph.Proofs.Network.OfGraph

namespace MediaGraph.Graph.Shows

variable {σ : Type} {g : Graph σ} {Λ : Layout} {D : Option NodeId} {s : Flow σ}
  {n : NodeId} {p : PortId}

/-! ### Checking inputs -/

/-- An input is required unless it is optional. -/
lemma isRequired_eq (hΛ : Λ.Proper) (h : g.Shows Λ D s)
    (hp : p ∈ Λ.network.inputs n) :
    (g.ports.get? p).any (·.isRequired) = !Λ.network.optional p := by
  obtain ⟨π, hπ, -, hd⟩ := hΛ.mem_portsOf.mp hp
  obtain ⟨port, hport, rfl⟩ := h.exists_port hπ
  have hd : port.direction = .input := hd
  simp [hport, Port.isRequired, Layout.network, hπ, hd, Port.layout]

/-- The owner of the output at the other end of an input is asked for data. -/
lemma ask (hΛ : Λ.Proper) (h : g.Shows Λ D s) {q : PortId} {x : NodeId}
    (hp : Λ.peer? p = some q) (hx : Λ.network.feeder p = some x) :
    (g.ask q).Shows Λ D (Λ.network.ask D s x) := by
  obtain ⟨port', sl, hport', hl⟩ := Layout.peer?_eq_some.mp hp
  obtain ⟨out', hout', -⟩ := hΛ.link hport' hl
  obtain ⟨out, hout, rfl⟩ := h.exists_port hout'
  obtain rfl : out.owner = x := by
    simpa [Layout.network, hp, hout', Port.layout] using hx
  obtain ⟨ν, hν⟩ := hΛ.owner_live hout'
  obtain ⟨node, hnode, rfl⟩ := h.exists_node hν
  have hν : Λ.node out.owner = some node.layout := hν
  have hasync : Λ.network.async out.owner = node.flags.async := by
    simp [Layout.network, hν, Node.layout]
  have hnode : g.nodes.get? out.owner = some node := hnode
  simp only [Graph.ask, hout, hnode, Network.ask, h.driver, hasync]
  split
  · exact (h.setPhase hν .output).enqueue hΛ hν
  · exact h

/-- One input of a node is looked at. -/
lemma checkInputPort (hΛ : Λ.Proper) (h : g.Shows Λ D s)
    (hp : p ∈ Λ.network.inputs n) :
    (Graph.checkInputPort n g p).Shows Λ D (Λ.network.checkInPort D n s p) := by
  obtain ⟨π, hπ, hown, hd⟩ := hΛ.mem_portsOf.mp hp
  obtain ⟨ν, hν⟩ := hΛ.owner_live hπ
  rw [hown] at hν
  obtain ⟨port, hport, rfl⟩ := h.exists_port hπ
  simp only [Graph.checkInputPort, hport, Network.checkInPort]
  rcases hl : port.link with _ | l
  · have hf : Λ.network.feeder p = none := by
      simp [Layout.network, Layout.peer?, hπ, Port.peer?, Port.layout, hl]
    simpa [hf] using h
  · have hpeer : Λ.peer? p = some l.peer :=
      Layout.peer?_eq_some.mpr ⟨_, l.slot, hπ, hl⟩
    obtain ⟨x, hx⟩ := Option.isSome_iff_exists.mp
      ((hΛ.isSome_feeder p).trans (by simp [hpeer]))
    have hslot := h.slotOf?_input hΛ hp
    rw [Graph.slotOf?, Graph.slotId?, hport] at hslot
    simp only [Option.bind_some, Port.slot?, hl, Option.map_some,
      Network.linked?, hx, Option.isSome_some, if_true] at hslot
    have hreq : port.isRequired = !Λ.network.optional p := by
      simpa [hport] using h.isRequired_eq hΛ hp
    simp only [hslot, Option.elim_some, hx, hreq]
    cases (s.slot p).status with
    | needData => exact h.ask hΛ hpeer hx
    | ok =>
        cases Λ.network.optional p
        · exact h.count hν hπ
        · exact h
    | haveData => exact h
    | error => exact h

/-- The inputs of a node are checked. -/
lemma checkInput (hΛ : Λ.Proper) (h : g.Shows Λ D s) {ν : NodeLayout}
    (hν : Λ.node n = some ν) :
    (g.checkInput n).Shows Λ D (Λ.network.checkIn D n s) := by
  obtain ⟨node, hn, -⟩ := h.exists_node hν
  rw [Graph.checkInput, hn]
  simp only [← Array.foldl_toList, h.inputs_eq hn]
  exact (h.resetReady hΛ hν).foldl fun p hp _ _ h => h.checkInputPort hΛ hp

/-- Whether a node has required inputs while none is required. -/
lemma demandsNothing (hΛ : Λ.Proper) (h : g.Shows Λ D s) {node : Node σ}
    (hn : g.nodes.get? n = some node) :
    g.demandsNothing node = Λ.network.demandsNothing n := by
  have hreq : Λ.network.required n = node.requiredIn := by
    simp [Layout.network, h.node hn, Node.layout]
  rw [Graph.demandsNothing, Network.demandsNothing, hreq, ← h.inputs_eq hn,
    ← Array.any_toList]
  congr 1
  rw [Bool.eq_iff_iff, List.any_eq_true, List.any_eq_true]
  refine exists_congr fun p => and_congr_right fun hp => ?_
  rw [h.inputs_eq hn] at hp
  rw [h.isRequired_eq hΛ hp]

/-! ### Checking outputs -/

/-- A link is announced to the node at its far end. -/
lemma announce (hΛ : Λ.Proper) (h : g.Shows Λ D s)
    (hp : p ∈ Λ.network.inputs n) (hf : (Λ.network.feeder p).isSome) :
    (g.announce p).Shows Λ D (Λ.network.announce s p) := by
  obtain ⟨π, hπ, hown, hd⟩ := hΛ.mem_portsOf.mp hp
  obtain ⟨ν, hν⟩ := hΛ.owner_live hπ
  rw [hown] at hν
  obtain ⟨port, hport, rfl⟩ := h.exists_port hπ
  have hown : port.owner = n := hown
  have hcounted : port.counted = s.counted p := by
    rw [← h.flow]
    simp [Graph.flow, hport]
  have hdata : (port.link.bind fun l => g.slots.get? l.slot).any (·.hasData) =
      s.full p := by
    have hslot := h.slotOf?_input hΛ hp
    simp only [Network.linked?, hf, if_true, Option.map_some] at hslot
    rw [Graph.slotOf?, Graph.slotId?, hport] at hslot
    rcases hl : port.link with _ | l <;>
      simp_all [Port.slot?, Flow.full]
  have hreq : port.isRequired = !Λ.network.optional p := by
    simpa [hport] using h.isRequired_eq hΛ hp
  simp only [Graph.announce, hport, Network.announce, hΛ.network.owner hp, hreq,
    hcounted, hdata, hown]
  -- the graph after the input was counted, if it was
  set fresh := !Λ.network.optional p && !s.counted p && s.full p
  have hc : (if fresh then g.count n p else g).Shows Λ D
      (if fresh then s.count n p else s) := by
    cases fresh
    · exact h
    · exact h.count hν hπ
  generalize (if fresh then g.count n p else g) = g' at hc ⊢
  generalize (if fresh then s.count n p else s) = s' at hc ⊢
  obtain ⟨node, hn, rfl⟩ := hc.exists_node hν
  have hready : node.readyIn = s'.ready n := by
    rw [← hc.flow]
    simp [Graph.flow, hn]
  have hrequired : node.requiredIn = Λ.network.required n := by
    simp [Layout.network, hν, Node.layout]
  simp only [hn, hready, hrequired]
  split
  · exact (hc.setPhase hν .input).enqueue hΛ hν
  · exact hc.dequeue n

/-- The outputs of a node are announced. -/
lemma checkOutput (hΛ : Λ.Proper) (h : g.Shows Λ D s) {ν : NodeLayout}
    (hν : Λ.node n = some ν) :
    (g.checkOutput n).Shows Λ D (Λ.network.checkOut n s) := by
  obtain ⟨node, hn, -⟩ := h.exists_node hν
  rw [Graph.checkOutput, hn, Network.checkOut, Network.targets,
    List.reduceOption, List.foldl_filterMap]
  simp only [← Array.foldl_toList, h.outputs_eq hn, Layout.network,
    List.foldl_map]
  refine h.foldl fun q hq g s h => ?_
  simp only [Graph.checkOutputPort, h.peer?_eq, id]
  rcases hp : Λ.peer? q with _ | p
  · exact h
  · have hmem : p ∈ Λ.network.targets n := Layout.mem_targets.mpr ⟨q, hq, hp⟩
    obtain ⟨c, hc⟩ := hΛ.network.target hmem
    exact h.announce hΛ hc (by simp [(hΛ.network.feeder hc n).mpr hmem])

/-! ### Calls -/

/-- An input whose data is gone is taken back out of the count. -/
lemma uncountDrained (hΛ : Λ.Proper) (h : g.Shows Λ D s)
    (hp : p ∈ Λ.network.inputs n) :
    (Graph.uncountDrained n g p).Shows Λ D (Λ.network.uncountDrained n s p) := by
  obtain ⟨π, hπ, hown, -⟩ := hΛ.mem_portsOf.mp hp
  obtain ⟨ν, hν⟩ := hΛ.owner_live hπ
  rw [hown] at hν
  obtain ⟨port, hport, rfl⟩ := h.exists_port hπ
  have hcounted : port.counted = s.counted p := by
    rw [← h.flow]
    simp [Graph.flow, hport]
  have hdata : (g.slotOf? p).any (·.hasData) =
      ((Λ.network.feeder p).isSome && s.full p) := by
    rw [h.slotOf?_input hΛ hp, Network.linked?]
    cases (Λ.network.feeder p).isSome <;> rfl
  simp only [Graph.uncountDrained, hport, Network.uncountDrained, hcounted,
    hdata]
  split
  · exact h.uncount hν hπ
  · exact h

/-- The inputs that a call consumed are taken back out of the count. -/
lemma dropConsumed (hΛ : Λ.Proper) (h : g.Shows Λ D s) {ν : NodeLayout}
    (hν : Λ.node n = some ν) :
    (g.dropConsumed n).Shows Λ D (Λ.network.dropConsumed n s) := by
  obtain ⟨node, hn, -⟩ := h.exists_node hν
  rw [Graph.dropConsumed, hn]
  simp only [← Array.foldl_toList, h.inputs_eq hn]
  exact h.foldl fun p hp _ _ h => h.uncountDrained hΛ hp

/-- The ports of a node as its processor sees them. -/
lemma view (hΛ : Λ.Proper) (h : g.Shows Λ D s) {node : Node σ}
    (hin : node.inputs.toList = Λ.network.inputs n)
    (hout : node.outputs.toList = Λ.portsOf n .output) :
    g.view node = Λ.network.view n s := by
  simp only [Graph.view, Network.view, hin, hout, PortView.mk.injEq]
  constructor
  · refine List.map_congr_left fun p hp => ?_
    simp only [Graph.inputView, h.slotOf?_input hΛ hp, InputView.mk.injEq,
      and_true]
    rw [Layout.network_optional, h.port_eq]
    rcases g.ports.get? p with _ | port <;> rfl
  · rw [Layout.network_outputs, List.map_map]
    exact List.map_congr_left fun q hq => h.slotOf?_output hΛ hq

/-- Slots are written back to the ports that they were read from. -/
lemma writeView (hΛ : Λ.Proper) (h : g.Shows Λ D s) {node : Node σ}
    (hin : node.inputs.toList = Λ.network.inputs n)
    (hout : node.outputs.toList = Λ.portsOf n .output) (v : PortView) :
    (g.writeView node v).Shows Λ D (Λ.network.writeView n v s) := by
  simp only [Graph.writeView, Network.writeView, Graph.writeSlots,
    Flow.writeSlots, hin, hout, List.zip_map_left, List.foldl_map,
    Layout.network_outputs]
  refine foldl (foldl h ?_) ?_
  · rintro ⟨p, c⟩ hpc g s h
    have hp : p ∈ Λ.network.inputs n := (List.of_mem_zip hpc).1
    have hlinked := hΛ.isSome_feeder p
    rcases c with _ | c
    · simpa [Flow.writeSlot] using h
    · cases hf : (Λ.network.feeder p).isSome
      · rw [hf] at hlinked
        simpa [Flow.writeSlot, Network.linked?, hf,
          h.modifySlotOf_unlinked (by simpa using hlinked.symm)] using h
      · simpa [Flow.writeSlot, Network.linked?, hf] using
          h.setSlot hΛ hp hf fun _ => c
  · rintro ⟨q, c⟩ hqc g s h
    have hq : q ∈ Λ.portsOf n .output := (List.of_mem_zip hqc).1
    rcases c with _ | c
    · simpa [Flow.writeSlot] using h
    · rcases hp : Λ.peer? q with _ | p
      · simpa [Flow.writeSlot, hp, h.modifySlotOf_unlinked hp] using h
      · simpa [Flow.writeSlot, hp] using h.setSlot_output hΛ hq hp fun _ => c

lemma countCall (h : g.Shows Λ D s) (side : Side) :
    (g.countCall side).Shows Λ D (s.countCall side) := by
  refine ⟨h.layout, h.driver, ?_, h.queue⟩
  rw [← h.flow]
  rfl

variable [Processor σ]

/-- A call of a live node. -/
lemma callback (hΛ : Λ.Proper) (h : g.Shows Λ D s) {node : Node σ}
    (hn : g.nodes.get? n = some node) (side : Side) :
    (g.callback n node side).1 = (Λ.network.call n node.processor side s).1 ∧
      (g.callback n node side).2.Shows Λ D
        (Λ.network.call n node.processor side s).2 := by
  have hin := h.inputs_eq hn
  have hout := h.outputs_eq hn
  have hν := h.node hn
  -- what the processor sees, and what it leaves behind
  have key : ∀ {g : Graph σ} {s : Flow σ}, g.Shows Λ D s →
      Processor.call side node.processor (g.view node) =
        Processor.call side node.processor (Λ.network.view n s) ∧
      ∀ reply : Reply σ,
        (((g.modifyNode n (Graph.afterCall side reply.state)).writeView node
          reply.ports).countCall side).Shows Λ D
          ((Λ.network.writeView n reply.ports
            (s.setProcessor n reply.state)).countCall side) := by
    intro g s h
    refine ⟨by rw [h.view hΛ hin hout], fun reply => ?_⟩
    exact ((h.afterCall hν side reply.state).writeView hΛ hin hout _).countCall
      side
  cases side with
  | input =>
      obtain ⟨hreply, hcalled⟩ := key (h.resetReady hΛ hν)
      simp only [Graph.callback, Network.call, hreply]
      have hafter := hcalled (Processor.call .input node.processor
        (Λ.network.view n (Λ.network.reset n s)))
      rcases hr : (Processor.call .input node.processor
        (Λ.network.view n (Λ.network.reset n s))).result with cause | verdict
      · exact ⟨rfl, hafter⟩
      · exact ⟨rfl, hafter.setPhase hν _⟩
  | output =>
      obtain ⟨hreply, hcalled⟩ := key h
      simp only [Graph.callback, Network.call, hreply]
      have hafter := (hcalled (Processor.call .output node.processor
        (Λ.network.view n s))).dropConsumed hΛ hν
      rcases hr : (Processor.call .output node.processor
        (Λ.network.view n s)).result with cause | verdict
      · exact ⟨rfl, hafter⟩
      · exact ⟨rfl, hafter.setPhase hν _⟩

/-! ### Turns -/

/-- The graph shows what a turn left, with the same call and failure. -/
structure Turned (turn : Turn σ) (Λ : Layout) (D : Option NodeId)
    (served : FlowTurn σ) : Prop where
  graph : turn.graph.Shows Λ D served.flow
  callback : turn.callback = served.callback
  failure : turn.failure = served.failure

/-- A node that left the queue is served. -/
lemma serve (hΛ : Λ.Proper) (h : g.Shows Λ D s) {node : Node σ}
    (hn : g.nodes.get? n = some node) :
    Turned (g.serve n node) Λ D
      (Λ.network.serveNode D n node.processor s) := by
  have hν := h.node hn
  have hphase : node.phase = s.phase n := by
    rw [← h.flow]
    simp [Graph.flow, hn]
  rw [Graph.serve, Network.serveNode, hphase]
  cases hφ : s.phase n with
  | input =>
      obtain ⟨h₁, h₂⟩ := h.callback hΛ hn .input
      simp only
      generalize Λ.network.call n node.processor .input s = r at h₁ h₂
      generalize g.callback n node .input = r' at h₁ h₂
      obtain ⟨r₁, t⟩ := r
      obtain ⟨r₁', g'⟩ := r'
      obtain rfl : r₁' = r₁ := h₁
      cases r₁' with
      | error cause => exact ⟨h₂, rfl, rfl⟩
      | ok verdict =>
          refine ⟨?_, rfl, rfl⟩
          have hD : g'.driver = D := h₂.driver
          simp only [Network.report, hD, true_and]
          split
          · exact h₂
          · exact h₂.enqueue hΛ hν
  | output =>
      obtain ⟨h₁, h₂⟩ := h.callback hΛ hn .output
      simp only
      generalize Λ.network.call n node.processor .output s = r at h₁ h₂
      generalize g.callback n node .output = r' at h₁ h₂
      obtain ⟨r₁, t⟩ := r
      obtain ⟨r₁', g'⟩ := r'
      obtain rfl : r₁' = r₁ := h₁
      cases r₁' with
      | error cause => exact ⟨h₂, rfl, rfl⟩
      | ok verdict =>
          refine ⟨?_, rfl, rfl⟩
          simpa [Network.report] using h₂.enqueue hΛ hν
  | checkInput =>
      simp only [h.demandsNothing hΛ hn]
      split
      · exact ⟨h.resetReady hΛ hν, rfl, rfl⟩
      · exact ⟨(h.checkInput hΛ hν).checkOutput hΛ hν, rfl, rfl⟩
  | checkOutput => exact ⟨h.checkOutput hΛ hν, rfl, rfl⟩

/-- There is no turn exactly if nobody waits. -/
lemma turn?_eq_none (h : g.Shows Λ D s) :
    g.turn? = none ↔ ∀ n, s.queued n = false := by
  obtain ⟨L, hL⟩ := h.queue
  rw [← h.flow]
  have hq : ∀ n, g.flow.queued n = false ↔ n ∉ L := fun n => by
    rw [← hL.contains_iff]
    simp [Graph.flow]
  simp only [hq]
  cases L with
  | nil => simp [Graph.turn?, hL.popFront_nil]
  | cons n L =>
      obtain ⟨h₁, -⟩ := hL.popFront
      have : g.turn? ≠ none := by
        rw [Graph.turn?]
        generalize g.ready.popFront = r at h₁
        obtain ⟨r₁, q⟩ := r
        obtain rfl : r₁ = some n := h₁
        simp only
        split <;> simp
      simp only [this, false_iff, not_forall, not_not]
      exact ⟨n, by simp⟩

/-- The turn of a graph is the turn of the node at the head of its queue. -/
theorem exists_turn_first (hΛ : Λ.Proper) (h : g.Shows Λ D s) {turn : Turn σ}
    (hturn : g.turn? = some turn) :
    ∃ n, g.ready.first = some n ∧ s.queued n = true ∧
      Turned turn Λ D (Λ.network.serve D n s) := by
  obtain ⟨L, hL⟩ := h.queue
  cases L with
  | nil => simp [Graph.turn?, hL.popFront_nil] at hturn
  | cons n L =>
      have hmem : g.ready.contains n = true := hL.contains_iff.mpr (by simp)
      have hfirst : g.ready.first = some n := hL.first
      have hpop : g.ready.popFront = (some n, (g.ready.remove n).2) := by
        simp [ReadyQueue.popFront, hfirst]
      refine ⟨n, hfirst, by rw [← h.flow]; exact hmem, ?_⟩
      obtain ⟨link, hlink, -⟩ := hL.link_of_mem (List.mem_cons_self ..)
      have hlive := h.place hΛ n
      rw [hlink] at hlive
      obtain ⟨node, hn⟩ := Option.isSome_iff_exists.mp hlive.symm
      have hd := h.dequeue n
      have hc : ({ g.dequeue n with stats :=
          { g.stats with dispatches := g.stats.dispatches + 1 } } : Graph σ).Shows
          Λ D (s.dequeue n).countTurn := by
        refine ⟨hd.layout, hd.driver, ?_, hd.queue⟩
        rw [← hd.flow]
        rfl
      have hx : s.processor n = some node.processor := by
        rw [← h.flow]
        simp [Graph.flow, hn]
      simp only [Graph.turn?, hpop, hn, Option.some.injEq] at hturn
      rw [← hturn, Network.serve, hx]
      exact hc.serve hΛ hn

/-- The turn of a graph is the turn of a node that waits. -/
theorem turn? (hΛ : Λ.Proper) (h : g.Shows Λ D s) {turn : Turn σ}
    (hturn : g.turn? = some turn) :
    ∃ n, s.queued n = true ∧ Turned turn Λ D (Λ.network.serve D n s) :=
  (h.exists_turn_first hΛ hturn).imp fun _ hn => hn.2

end MediaGraph.Graph.Shows

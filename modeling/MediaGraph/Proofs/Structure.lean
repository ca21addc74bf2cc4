/-
The structure of every graph that a client can make.

* `Tidy.perform`: every action, carried out or refused, keeps a graph tidy;
* `Graph.Linked`: what the nodes, ports and slots of a graph say of each other;
* `Tidy.linked`, `Tidy.linkCount_eq`: a tidy graph is linked in this way, and its
  links are as many as its linked outputs;
* `Action.graph_linked`: so is every graph that actions make of the empty one,
  and no name of it is ever given out again.
-/
import MediaGraph.Proofs.Cuts
import MediaGraph.Proofs.Names
import MediaGraph.Proofs.Network.Activation

namespace MediaGraph

variable {σ : Type}

/-! ### Counting entries -/

namespace Arena

variable {kind : Kind} {α : Type}

/-- The live entries are those of the live handles. -/
lemma values_eq (a : Arena kind α) : a.values = a.handles.filterMap a.get? := by
  have key : ∀ l : List (Option α), l.filterMap id =
      (List.range l.length).filterMap fun i => l[i]?.join := by
    intro l
    induction l with
    | nil => rfl
    | cons x l ih =>
        rw [List.length_cons, List.range_succ_eq_map, List.filterMap_cons,
          List.filterMap_cons, List.filterMap_map]
        cases x <;> simpa [Function.comp_def] using ih
  have hfilter : ∀ l : List (Handle kind), (l.filter a.contains).filterMap a.get? =
      l.filterMap a.get? := by
    intro l
    rw [List.filterMap_filter]
    refine List.filterMap_congr fun h _ => ?_
    rcases hh : a.get? h with _ | x <;> simp [contains, hh]
  rw [values, handles, hfilter, List.filterMap_map, key, Array.length_toList]
  refine List.filterMap_congr fun i _ => ?_
  simp [get?]

lemma nodup_handles (a : Arena kind α) : a.handles.Nodup := by
  refine List.Nodup.filter _ (List.Nodup.map ?_ List.nodup_range)
  intro i j h
  exact congrArg Handle.index h

/-- There are as many live entries as live handles. -/
lemma length_values (a : Arena kind α) : a.values.length = a.handles.length := by
  rw [values_eq, List.length_filterMap_eq_countP, List.countP_eq_length]
  intro h hh
  obtain ⟨x, hx⟩ := mem_handles.mp hh
  simp [hx]

/-- Counting live entries is counting live handles. -/
lemma countP_values (a : Arena kind α) (P : α → Bool) :
    a.values.countP P = a.handles.countP fun h => (a.get? h).any P := by
  rw [values_eq, List.countP_filterMap]
  congr 1
  funext h
  cases a.get? h <;> rfl

end Arena

namespace Graph

variable {g g' : Graph σ} {n : NodeId} {p q : PortId}

/-! ### Refusals -/

/-- A refused port leaves the graph as it is. -/
lemma addPort_refused {d : Direction} {flags : PortFlags} {e : GraphError}
    (h : (Graph.addPort n d flags).run g = (.error e, g')) : g' = g := by
  simp only [Graph.addPort, ExceptT.run] at h
  split at h
  · cases h
    rfl
  · split at h <;> cases h
    rfl

/-- A refused link leaves the graph as it is. -/
lemma link_refused {e : GraphError}
    (h : (Graph.link p q).run g = (.error e, g')) : g' = g := by
  simp only [Graph.link, ExceptT.run] at h
  repeat' split at h
  all_goals
    cases h
    try rfl

namespace Tidy

/-! ### Every action keeps a graph tidy -/

lemma addNode (h : g.Tidy) (x : σ) : ((Graph.addNode x).run g).2.Tidy where
  toWellFormed := (h.toWellFormed.addNode (x := x) rfl).2.2.1
  used := h.used
  idle := h.idle.register

lemma addPort (h : g.Tidy) (n : NodeId) (d : Direction) (flags : PortFlags) :
    ((Graph.addPort n d flags).run g).2.Tidy := by
  rcases hr : (Graph.addPort n d flags).run g with ⟨e | p, g'⟩
  · rwa [addPort_refused hr]
  · obtain ⟨node, -, rfl, hg, hwf⟩ := h.toWellFormed.addPort hr
    refine ⟨hwf, fun {s} hs => ?_, ?_⟩
    · have hold : g.layout.slot s = true := by
        rw [hg] at hs
        exact hs
      obtain ⟨r, l, hl, rfl⟩ := h.used hold
      refine ⟨r, l, ?_, rfl⟩
      obtain ⟨port, hr, hl⟩ := Layout.link?_eq_some.mp hl
      obtain ⟨port', hr', rfl⟩ := Option.map_eq_some_iff.mp hr
      have hne : r ≠ g.ports.fresh := by
        rintro rfl
        simp [get?_fresh] at hr'
      refine Layout.link?_eq_some.mpr ⟨port'.layout, ?_, hl⟩
      simp [hg, Graph.layout, Graph.modifyNode, Arena.get?_insert, hne, hr']
    · rw [hg]
      exact h.idle

lemma link (h : g.Tidy) (p q : PortId) : ((Graph.link p q).run g).2.Tidy := by
  rcases hr : (Graph.link p q).run g with ⟨e | s, g'⟩
  · rwa [link_refused hr]
  · obtain ⟨out, inp, hp, hq, hout, hinp, hpl, hql, rfl, hg, hwf⟩ :=
      h.toWellFormed.link hr
    have hpq : p ≠ q := by
      rintro rfl
      grind
    have hport : ∀ r, g'.layout.link? r = if r = q then some ⟨p, g.slots.fresh⟩
        else if r = p then some ⟨q, g.slots.fresh⟩ else g.layout.link? r := by
      intro r
      simp only [hg, Layout.link?, Graph.layout, Graph.modifyPort,
        Arena.get?_modify, eq_comm (a := q), eq_comm (a := p)]
      rcases eq_or_ne r q with rfl | hrq
      · simp [hq, hpq.symm, Port.layout]
      · rcases eq_or_ne r p with rfl | hrp
        · simp [hp, hpq, Port.layout]
        · simp [hrq, hrp]
    have hslot : ∀ s, g'.layout.slot s = true →
        s = g.slots.fresh ∨ g.layout.slot s = true := by
      intro s hs
      simp only [hg, Graph.layout, Graph.modifyPort, Arena.get?_insert] at hs
      split at hs
      · exact Or.inl (by assumption)
      · exact Or.inr hs
    refine ⟨hwf, fun {s} hs => ?_, ?_⟩
    · rcases hslot s hs with rfl | hs
      · exact ⟨q, _, by rw [hport, if_pos rfl], rfl⟩
      · obtain ⟨r, l, hl, rfl⟩ := h.used hs
        have hrq : r ≠ q := by
          rintro rfl
          simp [Layout.link?, Graph.layout, hq, Port.layout, hql] at hl
        have hrp : r ≠ p := by
          rintro rfl
          simp [Layout.link?, Graph.layout, hp, Port.layout, hpl] at hl
        exact ⟨r, l, by rw [hport, if_neg hrq, if_neg hrp, hl], rfl⟩
    · rw [hg]
      exact h.idle

lemma setRequiredIn (h : g.Tidy) (n : NodeId) (required : Nat) :
    ((Graph.setRequiredIn n required).run g).2.Tidy := by
  simp only [Graph.setRequiredIn, ExceptT.run]
  rcases hn : g.nodes.get? n with _ | node
  · exact h
  · exact h.modifyNode hn _ fun d => by cases d <;> rfl

lemma setFlags (h : g.Tidy) (n : NodeId) (flags : NodeFlags) :
    ((Graph.setFlags n flags).run g).2.Tidy := by
  simp only [Graph.setFlags, ExceptT.run]
  rcases hn : g.nodes.get? n with _ | node
  · exact h
  · exact h.modifyNode hn _ fun d => by cases d <;> rfl

lemma writeSlot (h : g.Tidy) (p : PortId) (f : Slot → Slot) :
    (g.modifySlotOf p f).Tidy := by
  obtain ⟨hwf, hlayout⟩ := h.toWellFormed.modifySlotOf p f
  refine ⟨hwf, fun hs => ?_, ?_⟩
  · rw [hlayout] at hs ⊢
    exact h.used hs
  · unfold Graph.modifySlotOf
    split <;> exact h.idle

variable [Processor σ]

lemma reuseBuffer (h : g.Tidy) (p : PortId) (b : BufferId) :
    ((Graph.reuseBuffer p b).run g).2.Tidy := by
  simp only [Graph.reuseBuffer, ExceptT.run]
  repeat' split
  all_goals try exact h
  rename_i m index hindex
  simp only [Graph.outputIndex?, Option.bind_eq_bind, Option.bind_eq_some_iff,
    Option.pure_def, Option.some.injEq, Prod.mk.injEq] at hindex
  obtain ⟨port, -, node, hm, i, -, rfl, -⟩ := hindex
  exact h.modifyNode hm _ fun d => by cases d <;> rfl

/-- An activation leaves the structure alone. -/
lemma layout_activate (h : g.Tidy) (budget : Nat) (mode : Mode) (n : NodeId) :
    (g.activate budget mode n).graph.layout = g.layout := by
  rcases hn : g.nodes.get? n with _ | node
  · simp only [Graph.activate, hn]
  · obtain ⟨t, -, hshows⟩ := h.shows.activate h.layout (h.shows.node hn) budget mode
    exact hshows.layout

lemma activate (h : g.Tidy) (budget : Nat) (mode : Mode) (n : NodeId) :
    (g.activate budget mode n).graph.Tidy := by
  have hlayout := h.layout_activate budget mode n
  refine h.of_shrinks (.activate budget mode n g) ?_ ?_ ?_
  · rw [hlayout]
    exact h.layout
  · rw [hlayout]
    exact h.paired
  · rcases hn : g.nodes.get? n with _ | node
    · simpa only [Graph.activate, hn] using h.idle
    · obtain ⟨t, -, hshows⟩ :=
        h.shows.activate h.layout (h.shows.node hn) budget mode
      obtain ⟨L, hL⟩ := hshows.queue
      obtain rfl : L = [] := by
        refine List.eq_nil_iff_forall_not_mem.mpr fun m hm => ?_
        have hc := hL.contains_iff.mpr hm
        have hf := congrFun (congrArg Flow.queued hshows.flow) m
        simp [Graph.flow, Flow.clear, hc] at hf
      exact hL

/-- Every action, carried out or refused, keeps a graph tidy. -/
theorem perform (h : g.Tidy) (a : Action σ) : (a.perform g).2.Tidy := by
  cases a with
  | addNode processor =>
      rw [Action.perform, Action.snd_issue]
      exact h.addNode processor
  | removeNode n => exact h.removeNode n
  | addPort n direction flags =>
      rw [Action.perform, Action.snd_issue]
      exact h.addPort n direction flags
  | removePort p => exact h.removePort p
  | link p q =>
      rw [Action.perform, Action.snd_issue]
      exact h.link p q
  | unlink p q => exact h.unlink p q
  | setRequiredIn n required => exact h.setRequiredIn n required
  | setFlags n flags => exact h.setFlags n flags
  | reuseBuffer p b => exact h.reuseBuffer p b
  | writeSlot p c => exact h.writeSlot p _
  | activate budget mode n => exact h.activate budget mode n

end Tidy

/-! ### What the parts of a graph say of each other -/

/-- What the nodes, the ports and the slots of a graph say of each other. -/
structure Linked (g : Graph σ) : Prop where
  /-- A live port is listed once by its owner, which is live. -/
  listed : ∀ {p port}, g.ports.get? p = some port →
    ∃ node, g.nodes.get? port.owner = some node ∧
      (node.portsOf port.direction).toList.count p = 1
  /-- Every listed port is live and listed by its owner, by its direction. -/
  lists : ∀ {n node d p}, g.nodes.get? n = some node → p ∈ node.portsOf d →
    ∃ port, g.ports.get? p = some port ∧ port.owner = n ∧ port.direction = d
  /-- A port has a peer exactly if it has a slot, and then the slot is live. -/
  slotted : ∀ p, (g.peer? p).isSome = (g.slotId? p).isSome ∧
    (g.slotId? p).isSome = (g.slotOf? p).isSome
  /-- Peers point at each other, have one slot, which is live, and differ in
  owner and direction. -/
  peer : ∀ {p q}, g.peer? p = some q → g.peer? q = some p ∧
    (∃ s c, g.slotId? p = some s ∧ g.slotId? q = some s ∧
      g.slots.get? s = some c) ∧
    ∃ port port', g.ports.get? p = some port ∧ g.ports.get? q = some port' ∧
      port'.direction ≠ port.direction ∧ port'.owner ≠ port.owner
  /-- A live slot is that of an output and of its peer, and of no other port. -/
  slot : ∀ {s c}, g.slots.get? s = some c → ∃ p q port,
    g.ports.get? p = some port ∧ port.direction = .output ∧
      g.peer? p = some q ∧ ∀ r, g.slotId? r = some s ↔ r = p ∨ r = q
  /-- There are as many links as linked outputs. -/
  linkCount : g.linkCount = g.ports.values.countP fun port =>
    port.direction = .output && port.link.isSome

/-! ### Tidy graphs are linked -/

lemma peer?_eq_link? (g : Graph σ) (p : PortId) :
    g.peer? p = (g.layout.link? p).map (·.peer) := by
  simp only [Graph.peer?, Layout.link?, Graph.layout]
  cases g.ports.get? p <;> rfl

lemma slotId?_eq_link? (g : Graph σ) (p : PortId) :
    g.slotId? p = (g.layout.link? p).map (·.slot) := by
  simp only [Graph.slotId?, Layout.link?, Graph.layout]
  cases g.ports.get? p <;> rfl

/-- The slot behind an output. -/
def outputSlot? (g : Graph σ) (p : PortId) : Option SlotId :=
  (g.ports.get? p).bind fun port =>
    if port.direction = .output then port.slot? else none

lemma outputSlot?_eq_some {s : SlotId} : g.outputSlot? p = some s ↔
    ∃ port l, g.ports.get? p = some port ∧ port.direction = .output ∧
      port.link = some l ∧ l.slot = s := by
  simp only [outputSlot?, Option.bind_eq_some_iff, Option.ite_none_right_eq_some,
    Port.slot?, Option.map_eq_some_iff]
  grind

namespace Tidy

/-- A live slot is that of an output and of its peer, and of no other port. -/
lemma exists_output (h : g.Tidy) {s : SlotId} (hs : g.layout.slot s = true) :
    ∃ p q port, g.ports.get? p = some port ∧ port.direction = .output ∧
      port.link = some ⟨q, s⟩ ∧ ∀ r, g.slotId? r = some s ↔ r = p ∨ r = q := by
  -- of the two ends that share the slot one is an output
  obtain ⟨p, q, hp, hdir⟩ : ∃ p q, g.layout.link? p = some ⟨q, s⟩ ∧
      ∃ port, g.ports.get? p = some port ∧ port.direction = .output := by
    obtain ⟨p, ⟨q, _⟩, hp, rfl⟩ := h.used hs
    have hq := h.paired.peer hp
    obtain ⟨port, hport, hl⟩ := Layout.link?_eq_some.mp hp
    obtain ⟨peer, hpeer, -, hne, -⟩ := h.layout.link hport hl
    obtain ⟨port, hport', rfl⟩ := Option.map_eq_some_iff.mp hport
    obtain ⟨peer, hpeer', rfl⟩ := Option.map_eq_some_iff.mp hpeer
    rcases hd : port.direction
    · refine ⟨q, p, hq, peer, hpeer', ?_⟩
      rcases hd' : peer.direction
      · exact absurd (hd'.trans hd.symm) hne
      · rfl
    · exact ⟨p, q, hp, port, hport', hd⟩
  obtain ⟨port, hport, hd⟩ := hdir
  have hl : port.link = some ⟨q, s⟩ := by
    simpa [Layout.link?, Graph.layout, hport, Port.layout] using hp
  refine ⟨p, q, port, hport, hd, hl, fun r => ?_⟩
  rw [slotId?_eq_link?, Option.map_eq_some_iff]
  constructor
  · rintro ⟨l, hr, he⟩
    exact h.paired.pair hp hr he.symm
  · rintro (rfl | rfl)
    · exact ⟨_, hp, rfl⟩
    · exact ⟨_, h.paired.peer hp, rfl⟩

/-- There are as many links as linked outputs. -/
lemma linkCount_eq (h : g.Tidy) :
    g.linkCount = g.ports.values.countP fun port =>
      port.direction = .output && port.link.isSome := by
  have hcount : (g.ports.values.countP fun port =>
      port.direction = .output && port.link.isSome) =
      (g.ports.handles.filterMap g.outputSlot?).length := by
    rw [Arena.countP_values, List.length_filterMap_eq_countP]
    congr 1
    funext p
    rcases hp : g.ports.get? p with _ | port
    · simp [outputSlot?, hp]
    · by_cases hd : port.direction = .output <;>
        simp [outputSlot?, hp, hd, Port.slot?]
  have hnodup : (g.ports.handles.filterMap g.outputSlot?).Nodup := by
    refine g.ports.nodup_handles.filterMap fun p q s hp hq => ?_
    obtain ⟨port, l, hport, hd, hl, rfl⟩ := outputSlot?_eq_some.mp hp
    obtain ⟨port', l', hport', hd', hl', he⟩ := outputSlot?_eq_some.mp hq
    have hΛ := h.shows.port hport
    have hΛ' := h.shows.port hport'
    rcases h.layout.slot_pair hΛ' hl' hΛ hl he with rfl | rfl
    · rfl
    · -- the other end of the link is an input
      obtain ⟨peer, hpeer, -, hne, -⟩ := h.layout.link hΛ' hl'
      obtain rfl := Option.some.inj (hΛ.symm.trans hpeer)
      exact absurd (hd.trans hd'.symm) hne
  have hmem : ∀ s, s ∈ g.ports.handles.filterMap g.outputSlot? ↔
      s ∈ g.slots.handles := by
    intro s
    rw [List.mem_filterMap, Arena.mem_handles]
    constructor
    · rintro ⟨p, -, hp⟩
      obtain ⟨port, l, hport, -, hl, rfl⟩ := outputSlot?_eq_some.mp hp
      exact Option.isSome_iff_exists.mp
        (h.layout.slot_live (h.shows.port hport) hl)
    · rintro ⟨c, hc⟩
      obtain ⟨p, q, port, hp, hd, hl, -⟩ :=
        h.exists_output (s := s) (by simp [Graph.layout, hc])
      exact ⟨p, Arena.mem_handles.mpr ⟨port, hp⟩,
        outputSlot?_eq_some.mpr ⟨port, _, hp, hd, hl, rfl⟩⟩
  rw [hcount, linkCount, Arena.length_values]
  exact (((List.perm_ext_iff_of_nodup hnodup g.slots.nodup_handles).mpr
    hmem).length_eq).symm

/-- The parts of a tidy graph say the same of each other. -/
theorem linked (h : g.Tidy) : g.Linked where
  listed {p port} hp := by
    have hport : g.layout.port p = some port.layout := by simp [Graph.layout, hp]
    obtain ⟨ν, hν⟩ := h.layout.owner_live hport
    obtain ⟨node, hn, rfl⟩ := Option.map_eq_some_iff.mp hν
    have hports : (node.portsOf port.direction).toList =
        g.layout.portsOf port.owner port.direction :=
      (h.shows.portsOf hn port.direction).symm
    refine ⟨node, hn, ?_⟩
    rw [hports]
    exact List.count_eq_one_of_mem (h.layout.nodup _ _)
      (h.layout.mem_portsOf.mpr ⟨_, hport, rfl, rfl⟩)
  lists {n node d p} hn hp := by
    have hports := h.shows.portsOf hn d
    rw [← Array.mem_toList_iff, ← hports] at hp
    obtain ⟨π, hπ, rfl, rfl⟩ := h.layout.mem_portsOf.mp hp
    obtain ⟨port, hport, rfl⟩ := h.shows.exists_port hπ
    exact ⟨port, hport, rfl, rfl⟩
  slotted p := by
    simp only [Graph.slotOf?, peer?_eq_link?, slotId?_eq_link?]
    rcases hp : g.layout.link? p with _ | l
    · exact ⟨rfl, rfl⟩
    · exact ⟨rfl, (h.paired.live hp).symm⟩
  peer {p q} hq := by
    rw [peer?_eq_link?, Option.map_eq_some_iff] at hq
    obtain ⟨l, hp, rfl⟩ := hq
    have hback := h.paired.peer hp
    obtain ⟨π, hπ, hl⟩ := Layout.link?_eq_some.mp hp
    obtain ⟨π', hπ', -, hd, ho⟩ := h.layout.link hπ hl
    obtain ⟨port, hport, rfl⟩ := h.shows.exists_port hπ
    obtain ⟨port', hport', rfl⟩ := h.shows.exists_port hπ'
    obtain ⟨c, hc⟩ := Option.isSome_iff_exists.mp (h.layout.slot_live hπ hl)
    refine ⟨?_, ⟨l.slot, c, ?_, ?_, hc⟩, port, port', hport, hport', hd, ho⟩
    · rw [peer?_eq_link?, hback, Option.map_some]
    · rw [slotId?_eq_link?, hp, Option.map_some]
    · rw [slotId?_eq_link?, hback, Option.map_some]
  slot {s c} hs := by
    have hlive : g.layout.slot s = true := by simp [Graph.layout, hs]
    obtain ⟨p, q, port, hp, hd, hl, hslot⟩ := h.exists_output hlive
    exact ⟨p, q, port, hp, hd, by simp [Graph.peer?, hp, Port.peer?, hl], hslot⟩
  linkCount := h.linkCount_eq

end Tidy

end Graph

/-! ### Every graph of a client -/

/-- Every graph that actions make of the empty one is tidy. -/
lemma Action.tidy_graph [Processor σ] (actions : List (Action σ)) :
    (Action.graph actions).Tidy :=
  Action.graph_induction Graph.Tidy.empty (fun a _ h => h.perform a) actions

/-- Every graph that actions make of the empty one is linked; the names given
out on the way differ from each other, and one that is dead by now is never live
again. -/
theorem Action.graph_linked [Processor σ] (actions : List (Action σ)) :
    (Action.graph actions).Linked ∧ (Action.names actions).Nodup ∧
      ∀ x ∈ Action.names actions, (Action.graph actions).isLive x = false →
        ∀ later : List (Action σ), (Action.graph (actions ++ later)).isLive x = false :=
  ⟨(Action.tidy_graph actions).linked, Action.nodup_names actions,
    fun _ hx hdead later => Action.not_isLive_append actions later hx hdead⟩

end MediaGraph

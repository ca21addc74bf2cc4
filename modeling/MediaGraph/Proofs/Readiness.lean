/-
When inputs are processed.

* `Graph.Tallied`: no node counts more inputs than are marked as counted, and the
  marked ports are linked and required inputs;
* `Tallied.perform`: every action on a tidy graph keeps that, edits that take a
  counted input away included;
* `Graph.TakesTurns`: turn after turn of an activation, none of which fails;
* `Action.readiness_gate`: whenever the inputs of a node are processed, it counts
  as many as it requires, and at least as many are marked.
-/
import MediaGraph.Proofs.Rounds
import MediaGraph.Proofs.Structure

namespace MediaGraph

variable {σ : Type}

namespace Graph

/-! ### Marks and counts -/

/-- Whether a port is marked as counted. -/
def isCounted (g : Graph σ) (p : PortId) : Bool :=
  (g.ports.get? p).any (·.counted)

/-- No node counts more inputs than are marked as counted, and the marked ports
are linked and required inputs. -/
structure Tallied (g : Graph σ) : Prop where
  ready : ∀ {n node}, g.nodes.get? n = some node →
    node.readyIn ≤ node.inputs.toList.countP g.isCounted
  counted : ∀ {p port}, g.ports.get? p = some port → port.counted = true →
    port.link.isSome = true ∧ port.isRequired = true

/-- A listed port that is live belongs to the node that lists it, and no node
lists a port twice. -/
structure Listing (g : Graph σ) : Prop where
  nodup : ∀ {n node}, g.nodes.get? n = some node → node.inputs.toList.Nodup
  owner : ∀ {n node p port}, g.nodes.get? n = some node →
    p ∈ node.inputs.toList → g.ports.get? p = some port → port.owner = n

variable {g g' : Graph σ} {n : NodeId} {p q : PortId}

/-- The inputs of a node of a tidy graph are the input ports that it owns. -/
lemma Tidy.mem_inputs_iff (ht : g.Tidy) {node : Node σ} {port : Port}
    (hn : g.nodes.get? n = some node) (hp : g.ports.get? p = some port) :
    p ∈ node.inputs.toList ↔ port.owner = n ∧ port.direction = .input := by
  rw [ht.shows.inputs_eq hn]
  refine ht.layout.mem_portsOf.trans ⟨?_, fun h => ⟨_, ht.shows.port hp, h⟩⟩
  rintro ⟨port', hport', hport⟩
  obtain rfl := Option.some.inj ((ht.shows.port hp).symm.trans hport')
  exact hport

/-- The lists of a tidy graph are in order. -/
lemma Tidy.listing (h : g.Tidy) : g.Listing where
  nodup {n node} hn := by
    have := h.layout.nodup n .input
    rwa [h.shows.portsOf hn .input] at this
  owner hn hp hport := ((h.mem_inputs_iff hn hport).mp hp).1

namespace Tallied

lemma empty : (Graph.empty : Graph σ).Tallied where
  ready hn := by simp [Graph.empty] at hn
  counted hp := by simp [Graph.empty] at hp

/-- Nodes and ports change in ways that matter to no count. -/
lemma congr (h : g.Tallied)
    (hnodes : ∀ {n node'}, g'.nodes.get? n = some node' →
      (∃ node, g.nodes.get? n = some node ∧ node'.readyIn ≤ node.readyIn ∧
        node.inputs.toList.countP g.isCounted ≤
          node'.inputs.toList.countP g.isCounted) ∨ node'.readyIn = 0)
    (hports : ∀ {p port'}, g'.ports.get? p = some port' → port'.counted = true →
      port'.link.isSome = true ∧ port'.isRequired = true)
    (hcounted : g'.isCounted = g.isCounted) : g'.Tallied where
  ready hn := by
    rw [hcounted]
    rcases hnodes hn with ⟨node, hn', hready, hle⟩ | hzero
    · exact Nat.le_trans hready (Nat.le_trans (h.ready hn') hle)
    · simp [hzero]
  counted := hports

/-- A node changes, and counts no more inputs than before. -/
lemma modifyNode (h : g.Tallied) (n : NodeId) {f : Node σ → Node σ}
    (hin : ∀ node, (f node).inputs = node.inputs)
    (hready : ∀ node, (f node).readyIn ≤ node.readyIn) :
    (g.modifyNode n f).Tallied := by
  refine h.congr (fun {m node'} hm => Or.inl ?_) h.counted rfl
  simp only [Graph.modifyNode, Arena.get?_modify] at hm
  split at hm
  · obtain ⟨node, hn, rfl⟩ := Option.map_eq_some_iff.mp hm
    exact ⟨node, hn, hready node, Nat.le_of_eq (by rw [hin])⟩
  · exact ⟨node', hm, Nat.le_refl _, Nat.le_refl _⟩

/-! ### Taking a graph apart -/

/-- A list with one mark less has at most one marked member less. -/
lemma countP_le_unmark {l : List PortId} (hl : l.Nodup) (f : PortId → Bool)
    (p : PortId) :
    l.countP f ≤ l.countP (Function.update f p false) + 1 := by
  induction l with
  | nil => simp
  | cons q l ih =>
      obtain ⟨hq, hl⟩ := List.nodup_cons.mp hl
      rw [List.countP_cons, List.countP_cons]
      rcases eq_or_ne q p with rfl | hqp
      · have hsame : l.countP (Function.update f q false) = l.countP f :=
          List.countP_congr fun r hr => by
            rw [Function.update_of_ne (by rintro rfl; exact hq hr)]
        rw [hsame, Function.update_self]
        split <;> simp
      · have := ih hl
        rw [Function.update_of_ne hqp]
        omega

/-- The marks after a port was freed. -/
lemma isCounted_detach (g : Graph σ) (p : PortId) :
    (g.detach p).isCounted = Function.update g.isCounted p false := by
  have hfree : (g.modifyPort p ({ · with link := none, counted := false })).isCounted =
      Function.update g.isCounted p false := by
    funext q
    simp only [isCounted, Graph.modifyPort, Arena.get?_modify,
      Function.update_apply, eq_comm (a := p)]
    split
    · cases g.ports.get? q <;> rfl
    · rfl
  unfold Graph.detach
  split
  · rename_i hp
    have : g.isCounted p = false := by simp [isCounted, hp]
    rw [← this, Function.update_eq_self]
  · simp only
    split
    · exact hfree
    · exact hfree

/-- The ports after one of them was freed. -/
lemma get?_ports_detach (g : Graph σ) (p q : PortId) :
    (g.detach p).ports.get? q = if p = q then
      (g.ports.get? q).map ({ · with link := none, counted := false })
      else g.ports.get? q := by
  rw [← Arena.get?_modify]
  unfold Graph.detach
  split
  · rename_i hp
    rw [Arena.get?_modify]
    split
    · subst_vars
      simp [hp]
    · rfl
  · simp only
    split <;> rfl

/-- The nodes after a port was freed: its owner does not count it any more. -/
lemma get?_nodes_detach (g : Graph σ) (p : PortId) (m : NodeId) :
    (g.detach p).nodes.get? m = (g.nodes.get? m).map fun node =>
      if g.isCounted p = true ∧ (g.ports.get? p).map (·.owner) = some m then
        { node with readyIn := node.readyIn - 1 } else node := by
  unfold Graph.detach
  rcases hp : g.ports.get? p with _ | port
  · simp [isCounted, hp]
  · simp only [isCounted, hp, Option.any_some, Option.map_some, Option.some.injEq]
    by_cases hc : port.counted = true
    · by_cases hm : port.owner = m
      · simp [hc, hm, Graph.modifyNode, Graph.modifyPort]
      · simp [hc, hm, Graph.modifyNode, Graph.modifyPort, Arena.get?_modify]
    · simp [hc, Graph.modifyPort]

/-- A port is freed, and taken back out of the count of its owner. -/
lemma detach (h : g.Tallied) (hl : g.Listing) (p : PortId) :
    (g.detach p).Tallied where
  ready {m node'} hm := by
    rw [get?_nodes_detach, Option.map_eq_some_iff] at hm
    obtain ⟨node, hm, rfl⟩ := hm
    have hle := h.ready hm
    rw [isCounted_detach]
    split
    · have := countP_le_unmark (hl.nodup hm) g.isCounted p
      simp only
      omega
    · -- no mark of this node is lost
      rename_i hno
      refine hle.trans_eq (List.countP_congr fun q hq => ?_)
      rcases eq_or_ne q p with rfl | hqp
      · have hc : g.isCounted q = false := by
          by_contra hc
          rw [Bool.not_eq_false] at hc
          rcases hport : g.ports.get? q with _ | port
          · simp [isCounted, hport] at hc
          · exact hno ⟨hc, by simp [hport, hl.owner hm hq hport]⟩
        rw [hc, Function.update_self]
      · rw [Function.update_of_ne hqp]
  counted {q port} hq hc := by
    rw [get?_ports_detach] at hq
    split at hq
    · obtain ⟨port, -, rfl⟩ := Option.map_eq_some_iff.mp hq
      cases hc
    · exact h.counted hq hc

end Tallied

lemma Listing.detach (h : g.Listing) (p : PortId) : (g.detach p).Listing := by
  have hnode : ∀ {m node'}, (g.detach p).nodes.get? m = some node' →
      ∃ node, g.nodes.get? m = some node ∧ node'.inputs = node.inputs := by
    intro m node' hm
    rw [Tallied.get?_nodes_detach, Option.map_eq_some_iff] at hm
    obtain ⟨node, hm, rfl⟩ := hm
    exact ⟨node, hm, by split <;> rfl⟩
  constructor
  · intro m node' hm
    obtain ⟨node, hm, hin⟩ := hnode hm
    rw [hin]
    exact h.nodup hm
  · intro m node' q port' hm hq hport
    obtain ⟨node, hm, hin⟩ := hnode hm
    rw [hin] at hq
    rw [Tallied.get?_ports_detach] at hport
    split at hport
    · obtain ⟨port, hp, rfl⟩ := Option.map_eq_some_iff.mp hport
      exact (h.owner hm hq hp :)
    · exact h.owner hm hq hport

lemma isCounted_breakLink_self (g : Graph σ) (p : PortId) :
    (g.breakLink p).isCounted p = false := by
  unfold Graph.breakLink
  split
  · rw [Tallied.isCounted_detach, Function.update_self]
  · rename_i l _
    have hfreed : ((g.detach p).detach l.peer).isCounted p = false := by
      rw [Tallied.isCounted_detach, Tallied.isCounted_detach, Function.update_apply,
        Function.update_self]
      split <;> rfl
    exact hfreed

lemma isCounted_dropPort (g : Graph σ) (p : PortId) :
    (g.dropPort p).isCounted = (g.breakLink p).isCounted := by
  funext q
  simp only [isCounted, Graph.dropPort, Arena.get?_erase]
  split
  · subst_vars
    exact (g.isCounted_breakLink_self _).symm
  · rfl

lemma Listing.breakLink (h : g.Listing) (p : PortId) : (g.breakLink p).Listing := by
  unfold Graph.breakLink
  split
  · exact h.detach p
  · rename_i l _
    have hfreed := (h.detach p).detach l.peer
    exact ⟨hfreed.nodup, hfreed.owner⟩

lemma Listing.dropPort (h : g.Listing) (p : PortId) : (g.dropPort p).Listing where
  nodup := (h.breakLink p).nodup
  owner {m node q port} hm hq hport := by
    simp only [Graph.dropPort, Arena.get?_erase] at hport
    split at hport
    · cases hport
    · exact (h.breakLink p).owner hm hq hport

namespace Tallied

/-- A link is broken. -/
lemma breakLink (h : g.Tallied) (hl : g.Listing) (p : PortId) :
    (g.breakLink p).Tallied := by
  unfold Graph.breakLink
  split
  · exact h.detach hl p
  · rename_i l _
    have hfreed := (h.detach hl p).detach (hl.detach p) l.peer
    exact ⟨hfreed.ready, hfreed.counted⟩

/-- A port goes with its link. -/
lemma dropPort (h : g.Tallied) (hl : g.Listing) (p : PortId) :
    (g.dropPort p).Tallied := by
  have hb := h.breakLink hl p
  refine hb.congr (fun hn => Or.inl ⟨_, hn, Nat.le_refl _, Nat.le_refl _⟩) ?_ ?_
  · intro q port hq hc
    simp only [Graph.dropPort, Arena.get?_erase] at hq
    split at hq
    · cases hq
    · exact hb.counted hq hc
  · exact g.isCounted_dropPort p

lemma foldl_dropPort (h : g.Tallied) (hl : g.Listing) (ports : List PortId) :
    (ports.foldl Graph.dropPort g).Tallied := by
  induction ports generalizing g with
  | nil => exact h
  | cons p ports ih => exact ih (h.dropPort hl p) (hl.dropPort p)

/-! ### Edits -/

lemma addNode (h : g.Tallied) (x : σ) : ((Graph.addNode x).run g).2.Tallied := by
  refine h.congr (fun {m node'} hm => ?_) h.counted rfl
  simp only [Graph.addNode, ExceptT.run, Arena.get?_insert] at hm
  split at hm
  · cases hm
    exact Or.inr rfl
  · exact Or.inl ⟨node', hm, Nat.le_refl _, Nat.le_refl _⟩

lemma removeNode (h : g.Tallied) (hl : g.Listing) (n : NodeId) :
    ((Graph.removeNode n).run g).2.Tallied := by
  simp only [Graph.removeNode, ExceptT.run]
  rcases g.nodes.get? n with _ | node
  · exact h
  · simp only [← Array.foldl_toList]
    have hq : ({ g with ready := (g.ready.remove n).2 } : Graph σ).Tallied :=
      ⟨h.ready, h.counted⟩
    have hbare := hq.foldl_dropPort ⟨hl.nodup, hl.owner⟩
      (node.inputs ++ node.outputs).toList
    refine hbare.congr (fun {m node'} hm => Or.inl ?_) hbare.counted rfl
    simp only [Arena.get?_erase] at hm
    split at hm
    · cases hm
    · exact ⟨node', hm, Nat.le_refl _, Nat.le_refl _⟩

lemma addPort (h : g.Tallied) (n : NodeId) (d : Direction) (flags : PortFlags) :
    ((Graph.addPort n d flags).run g).2.Tallied := by
  have hfresh : g.isCounted g.ports.fresh = false := by
    simp [isCounted, get?_fresh]
  simp only [Graph.addPort, ExceptT.run]
  rcases g.nodes.get? n with _ | node
  · exact h
  · simp only
    split
    · exact h
    · refine h.congr (fun {m node'} hm => Or.inl ?_) ?_ ?_
      · simp only [Graph.modifyNode, Arena.get?_modify] at hm
        split at hm
        · obtain ⟨node, hn, rfl⟩ := Option.map_eq_some_iff.mp hm
          refine ⟨node, hn, Nat.le_refl _, ?_⟩
          cases d <;> simp [hfresh]
        · exact ⟨node', hm, Nat.le_refl _, Nat.le_refl _⟩
      · intro q port hq hc
        simp only [Graph.modifyNode, Arena.get?_insert] at hq
        split at hq
        · cases hq
          cases hc
        · exact h.counted hq hc
      · funext q
        simp only [isCounted, Graph.modifyNode, Arena.get?_insert]
        split
        · subst_vars
          exact hfresh.symm
        · rfl

lemma removePort (h : g.Tallied) (hl : g.Listing) (p : PortId) :
    ((Graph.removePort p).run g).2.Tallied := by
  simp only [Graph.removePort, ExceptT.run]
  have hd := h.dropPort hl p
  have hp : (g.dropPort p).isCounted p = false := by
    simp [isCounted, Graph.dropPort]
  split
  · exact h
  · split
    · exact hd
    · -- no mark is lost with the port
      refine hd.congr (fun {m node'} hm => Or.inl ?_) hd.counted rfl
      simp only [Graph.modifyNode, Arena.get?_modify] at hm
      split at hm
      · obtain ⟨node, hn, rfl⟩ := Option.map_eq_some_iff.mp hm
        refine ⟨node, hn, Nat.min_le_left _ _, ?_⟩
        simp only [Array.toList_filter, List.countP_filter]
        refine List.countP_mono_left fun q _ hq => ?_
        have hne : q ≠ p := by
          rintro rfl
          exact Bool.false_ne_true (hp.symm.trans hq)
        simpa [hne] using hq
      · exact ⟨node', hm, Nat.le_refl _, Nat.le_refl _⟩

/-- A port gets a link. -/
lemma modifyPort (h : g.Tallied) (p : PortId) (l : Link) :
    (g.modifyPort p ({ · with link := some l })).Tallied := by
  refine h.congr (fun hn => Or.inl ⟨_, hn, Nat.le_refl _, Nat.le_refl _⟩) ?_ ?_
  · intro q port hq hc
    simp only [Graph.modifyPort, Arena.get?_modify] at hq
    split at hq
    · obtain ⟨port, hp, rfl⟩ := Option.map_eq_some_iff.mp hq
      exact ⟨rfl, (h.counted hp hc).2⟩
    · exact h.counted hq hc
  · funext q
    simp only [isCounted, Graph.modifyPort, Arena.get?_modify]
    split
    · cases g.ports.get? q <;> rfl
    · rfl

lemma link (h : g.Tallied) (p q : PortId) : ((Graph.link p q).run g).2.Tallied := by
  have hslot : ({ g with slots := g.slots.insert {} } : Graph σ).Tallied :=
    ⟨h.ready, h.counted⟩
  simp only [Graph.link, ExceptT.run]
  repeat' split
  all_goals first
    | exact h
    | exact (hslot.modifyPort p _).modifyPort q _

lemma unlink (h : g.Tallied) (hl : g.Listing) (p q : PortId) :
    ((Graph.unlink p q).run g).2.Tallied := by
  simp only [Graph.unlink, ExceptT.run]
  repeat' split
  all_goals first
    | exact h
    | exact h.breakLink hl p

lemma setRequiredIn (h : g.Tallied) (n : NodeId) (required : Nat) :
    ((Graph.setRequiredIn n required).run g).2.Tallied := by
  simp only [Graph.setRequiredIn, ExceptT.run]
  split
  · exact h
  · exact h.modifyNode n (fun _ => rfl) fun _ => Nat.min_le_left _ _

lemma setFlags (h : g.Tallied) (n : NodeId) (flags : NodeFlags) :
    ((Graph.setFlags n flags).run g).2.Tallied := by
  simp only [Graph.setFlags, ExceptT.run]
  split
  · exact h
  · exact h.modifyNode n (fun _ => rfl) fun _ => Nat.le_refl _

lemma writeSlot (h : g.Tallied) (p : PortId) (f : Slot → Slot) :
    (g.modifySlotOf p f).Tallied := by
  unfold Graph.modifySlotOf
  split <;> exact ⟨h.ready, h.counted⟩

lemma reuseBuffer [Processor σ] (h : g.Tallied) (p : PortId) (b : BufferId) :
    ((Graph.reuseBuffer p b).run g).2.Tallied := by
  simp only [Graph.reuseBuffer, ExceptT.run]
  repeat' split
  all_goals first
    | exact h
    | exact h.modifyNode _ (fun _ => rfl) fun _ => Nat.le_refl _

end Tallied

/-! ### Activations -/

section Flow

variable {Λ : Layout} {D : Option NodeId} {s : Flow σ}

/-- A port is linked exactly if there is a node at the other end. -/
lemma Shows.isSome_link (hΛ : Λ.Proper) (h : g.Shows Λ D s) {port : Port}
    (hp : g.ports.get? p = some port) :
    port.link.isSome = (Λ.network.feeder p).isSome := by
  rw [hΛ.isSome_feeder, ← h.peer?_eq, Graph.peer?, hp, Option.bind_some,
    Port.peer?, Option.isSome_map]

/-- Whether a port is marked shows in the flow. -/
lemma Shows.counted_eq (h : g.Shows Λ D s) : s.counted = g.isCounted := by
  rw [← h.flow]
  rfl

/-- A node that waits is live. -/
lemma Shows.exists_node_of_queued (hΛ : Λ.Proper) (h : g.Shows Λ D s)
    (hn : s.queued n = true) : ∃ node, g.nodes.get? n = some node := by
  rw [← h.flow] at hn
  obtain ⟨L, hL⟩ := h.queue
  obtain ⟨link, hlink, -⟩ := hL.link_of_mem (hL.contains_iff.mp hn)
  have hplace := h.place hΛ n
  rw [hlink] at hplace
  exact Option.isSome_iff_exists.mp hplace.symm

/-- What the marks and counts of a flow say of its graph. -/
lemma Shows.tallied (hΛ : Λ.Proper) (h : g.Shows Λ D s)
    (ht : Λ.network.Tallied s) : g.Tallied where
  ready {n node} hn := by
    have hready : s.ready n = node.readyIn := by
      rw [← h.flow]
      simp [Graph.flow, hn]
    rw [← hready, ← h.counted_eq, h.inputs_eq hn]
    exact ht.ready n
  counted {p port} hp hc := by
    have hcount : s.counted p = true := by simp [h.counted_eq, isCounted, hp, hc]
    obtain ⟨⟨n, hn⟩, hf, ho⟩ := ht.counted hcount
    obtain ⟨port', hp', -, hd⟩ := hΛ.mem_portsOf.mp hn
    obtain rfl := Option.some.inj ((h.port hp).symm.trans hp')
    refine ⟨(h.isSome_link hΛ hp).trans hf, ?_⟩
    have hopt : port.flags.optional = false := by
      simpa [Layout.network_optional, h.port hp, Port.layout] using ho
    simp [Port.isRequired, show port.direction = .input from hd, hopt]

end Flow

/-- The marks and counts of a tidy graph are those of its flow. -/
lemma Tallied.network (h : g.Tallied) (ht : g.Tidy) :
    g.layout.network.Tallied g.flow where
  ready n := by
    rcases hn : g.nodes.get? n with _ | node
    · simp [Graph.flow, hn]
    · have hready : g.flow.ready n = node.readyIn := by simp [Graph.flow, hn]
      rw [hready, ← ht.shows.inputs_eq hn]
      exact h.ready hn
  counted {p} hc := by
    rcases hp : g.ports.get? p with _ | port
    · simp [Graph.flow, hp] at hc
    · have hcounted : port.counted = true := by simpa [Graph.flow, hp] using hc
      obtain ⟨hl, hreq⟩ := h.counted hp hcounted
      simp only [Port.isRequired, Bool.and_eq_true, decide_eq_true_eq,
        Bool.not_eq_true'] at hreq
      have hport := ht.shows.port hp
      refine ⟨⟨port.owner, ht.layout.mem_portsOf.mpr ⟨_, hport, rfl, hreq.1⟩⟩,
        (ht.shows.isSome_link ht.layout hp).symm.trans hl, ?_⟩
      simp [Layout.network_optional, hport, Port.layout, hreq.2]
  complete {n} hn _ := by
    have hmem := ht.idle.contains_iff.mp hn
    cases hmem

/-- Nobody waits in a tidy graph. -/
lemma Tidy.queued_eq_false (h : g.Tidy) (n : NodeId) : g.flow.queued n = false := by
  rw [Bool.eq_false_iff]
  intro hn
  have hmem := h.idle.contains_iff.mp hn
  cases hmem

variable [Processor σ]

lemma Tallied.activate (h : g.Tallied) (ht : g.Tidy) (budget : Nat) (mode : Mode)
    (n : NodeId) : (g.activate budget mode n).graph.Tallied := by
  rcases hn : g.nodes.get? n with _ | node
  · simpa only [Graph.activate, hn] using h
  · obtain ⟨t, hends, hshows⟩ :=
      ht.shows.activate ht.layout (ht.shows.node hn) budget mode
    exact hshows.tallied ht.layout
      ((h.network ht).ends ht.layout.network ht.queued_eq_false hends)

/-- Every action keeps marks and counts in agreement. -/
theorem Tallied.perform (h : g.Tallied) (ht : g.Tidy) (a : Action σ) :
    (a.perform g).2.Tallied := by
  cases a with
  | addNode processor =>
      rw [Action.perform, Action.snd_issue]
      exact h.addNode processor
  | removeNode n => exact h.removeNode ht.listing n
  | addPort n direction flags =>
      rw [Action.perform, Action.snd_issue]
      exact h.addPort n direction flags
  | removePort p => exact h.removePort ht.listing p
  | link p q =>
      rw [Action.perform, Action.snd_issue]
      exact h.link p q
  | unlink p q => exact h.unlink ht.listing p q
  | setRequiredIn n required => exact h.setRequiredIn n required
  | setFlags n flags => exact h.setFlags n flags
  | reuseBuffer p b => exact h.reuseBuffer p b
  | writeSlot p c => exact h.writeSlot p _
  | activate budget mode n => exact h.activate ht budget mode n

/-! ### Turns of an activation -/

/-- The graph after turns of an activation that starts from `g`, none of which
failed. -/
inductive TakesTurns (g : Graph σ) : Graph σ → Prop
  | refl : TakesTurns g g
  | turn {t : Graph σ} {turn : Turn σ} :
      TakesTurns g t → t.turn? = some turn → turn.failure = none →
      TakesTurns g turn.graph

lemma exists_turn_of_mem_settle {t : Graph σ} {calls : List Callback}
    {c : Callback} (ht : g.TakesTurns t) (budget : Nat)
    (hc : c ∈ (settle budget t calls).callbacks) :
    c ∈ calls ∨ ∃ u turn, g.TakesTurns u ∧ u.turn? = some turn ∧
      turn.callback = some c := by
  have hnew : ∀ {u : Graph σ} {turn : Turn σ} {calls : List Callback},
      g.TakesTurns u → u.turn? = some turn → c ∈ turn.callback.toList ++ calls →
      c ∈ calls ∨ ∃ u turn, g.TakesTurns u ∧ u.turn? = some turn ∧
        turn.callback = some c := by
    intro u turn calls hu hturn hc
    rcases List.mem_append.mp hc with hc | hc
    · exact Or.inr ⟨u, turn, hu, hturn, Option.mem_toList.mp hc⟩
    · exact Or.inl hc
  fun_induction settle budget t calls with
  | case1 => exact Or.inl hc
  | case2 => exact Or.inl hc
  | case3 t calls turn hturn => exact hnew ht hturn hc
  | case4 t calls turn hturn _ _ hnone ih =>
      rcases ih (ht.turn hturn hnone) hc with hc | hc
      · exact hnew ht hturn hc
      · exact Or.inr hc

/-- Every call of an activation is made in one of its turns. -/
lemma exists_turn_of_mem_activate {budget : Nat} {mode : Mode} {c : Callback}
    (hc : c ∈ (g.activate budget mode n).callbacks) :
    ∃ u turn, (g.start mode n).TakesTurns u ∧ u.turn? = some turn ∧
      turn.callback = some c := by
  unfold Graph.activate at hc
  split at hc
  · cases hc
  · have hmem : c ∈ (settle budget (g.start mode n) []).callbacks := by
      simpa [finish] using hc
    exact (exists_turn_of_mem_settle .refl budget hmem).resolve_left
      List.not_mem_nil

/-- Every graph between two turns shows a flow with what every turn keeps. -/
lemma TakesTurns.invariant {t : Graph σ} {Λ : Layout} {D : Option NodeId} {s : Flow σ}
    {P : Flow σ → Prop} (hΛ : Λ.Proper) (h : g.Shows Λ D s) (hP : P s)
    (hstep : ∀ u m, u.queued m = true → P u → P (Λ.network.serve D m u).flow)
    (ht : g.TakesTurns t) : ∃ u, t.Shows Λ D u ∧ P u := by
  induction ht with
  | refl => exact ⟨s, h, hP⟩
  | turn _ hturn _ ih =>
      obtain ⟨u, hu, hPu⟩ := ih
      obtain ⟨m, hm, hturned⟩ := hu.turn? hΛ hturn
      exact ⟨_, hturned.graph, hstep u m hm hPu⟩

/-- Every graph between two turns shows a flow in which marks and counts
agree. -/
lemma TakesTurns.shows {t : Graph σ} {Λ : Layout} {D : Option NodeId} {s : Flow σ}
    (hΛ : Λ.Proper) (h : g.Shows Λ D s) (hs : Λ.network.Tallied s)
    (ht : g.TakesTurns t) : ∃ u, t.Shows Λ D u ∧ Λ.network.Tallied u :=
  ht.invariant hΛ h hs fun _ m _ hu => hu.serve hΛ.network m

omit [Processor σ] in
/-- Marks and counts agree when an activation starts, also if its driver does
not exist. -/
lemma Tallied.exists_start (h : g.Tallied) (ht : g.Tidy) (mode : Mode) (n : NodeId) :
    ∃ s, (g.start mode n).Shows g.layout (some n) s ∧
      g.layout.network.Tallied s := by
  have hflow := h.network ht
  rcases hn : g.nodes.get? n with _ | node
  · have hplace : g.ready.links.get? n = none := by
      have := ht.shows.place ht.layout n
      simpa [hn] using this
    have hnodes : ∀ f, g.nodes.modify n f = g.nodes := by
      intro f
      refine Arena.ext_get? (Arena.size_modify _ _ _) fun m => ?_
      rw [Arena.get?_modify]
      split
      · subst_vars
        rw [hn]
        rfl
      · rfl
    have hstart : g.start mode n = { g with driver := some n, stats := {} } := by
      simp [Graph.start, Graph.enqueue, Graph.modifyNode, ReadyQueue.pushBack,
        hplace, hnodes]
    rw [hstart]
    exact ⟨{ g.flow with stats := {} }, ⟨rfl, rfl, rfl, ht.queue⟩,
      hflow.congr rfl rfl fun _ hm hφ => ⟨hm, hφ⟩⟩
  · exact ⟨_, ht.shows.start ht.layout (ht.shows.node hn) mode,
      hflow.start ht.queued_eq_false mode n⟩

/-- The inputs of a node that are linked, required and marked as counted. -/
def marked (g : Graph σ) (node : Node σ) : List PortId :=
  node.inputs.toList.filter fun p => (g.ports.get? p).any fun port =>
    port.link.isSome && port.isRequired && port.counted

omit [Processor σ] in
/-- In a graph in which marks and counts agree as many inputs are marked as the
node counts at least. -/
lemma Tallied.readyIn_le (h : g.Tallied) {node : Node σ}
    (hn : g.nodes.get? n = some node) :
    node.readyIn ≤ (g.marked node).length := by
  rw [marked, ← List.countP_eq_length_filter]
  refine Nat.le_trans (h.ready hn) (List.countP_mono_left fun p _ hp => ?_)
  rcases hport : g.ports.get? p with _ | port
  · simp [isCounted, hport] at hp
  · have hc : port.counted = true := by simpa [isCounted, hport] using hp
    obtain ⟨hl, hr⟩ := h.counted hport hc
    simp [hl, hr, hc]

omit [Processor σ] in
/-- A new round starts without marks: what is marked later was counted in it. -/
lemma isCounted_resetReady {node : Node σ} (hn : g.nodes.get? n = some node)
    (hp : p ∈ node.inputs) : (g.resetReady n).isCounted p = false := by
  have key : ∀ (l : List PortId) (g : Graph σ), (p ∈ l ∨ g.isCounted p = false) →
      (l.foldl (fun g p => g.modifyPort p ({ · with counted := false }))
        g).isCounted p = false := by
    intro l
    induction l with
    | nil => exact fun g h => h.resolve_left List.not_mem_nil
    | cons q l ih =>
        intro g h
        refine ih _ ?_
        rcases eq_or_ne p q with rfl | hpq
        · right
          simp only [isCounted, Graph.modifyPort, Arena.get?_modify_self]
          cases g.ports.get? p <;> rfl
        · refine h.imp (fun hp => (List.mem_cons.mp hp).resolve_left hpq) fun hc => ?_
          simpa only [isCounted, Graph.modifyPort,
            Arena.get?_modify_ne _ _ hpq.symm] using hc
  simp only [Graph.resetReady, hn, ← Array.foldl_toList]
  exact key _ _ (Or.inl (Array.mem_toList_iff.mpr hp))

end Graph

/-- A call is made in the turn of its node, which waits for a call of that
side. -/
lemma Network.phase_of_callback [Processor σ] {N : Network} {D : Option NodeId}
    {s : Flow σ} {n m : NodeId} {side : Side} {r : Except ProcessError Verdict}
    (h : (N.serve D n s).callback = some ⟨m, side, r⟩) :
    m = n ∧ s.phase n = side.phase := by
  have hreport : ∀ (side' : Side) (c : Except ProcessError Verdict × Flow σ),
      (report D n side' c).callback = some ⟨m, side, r⟩ → m = n ∧ side' = side := by
    rintro side' ⟨_ | _, t⟩ hc <;>
      · simp only [report, Option.some.injEq, Callback.mk.injEq] at hc
        exact ⟨hc.1.symm, hc.2.1⟩
  unfold Network.serve at h
  split at h
  · cases h
  · unfold Network.serveNode at h
    split at h
    case h_1 hφ | h_2 hφ =>
      obtain ⟨hnode, rfl⟩ := hreport _ _ h
      exact ⟨hnode, hφ⟩
    · split at h <;> cases h
    · cases h

/-! ### The gate -/

/-- In every activation of every graph that a client can make, between any two
turns, a node that waits to process its inputs counts as many as it requires,
and it requires some. So it does immediately before its inputs are processed,
and then at least as many linked and required inputs are marked, all of them in
the current round, which started without marks. -/
theorem Action.readiness_gate [Processor σ] (actions : List (Action σ))
    (mode : Mode) (n : NodeId) :
    (∀ t, ((Action.graph actions).start mode n).TakesTurns t →
      ∀ m node, t.nodes.get? m = some node → t.ready.contains m = true →
        node.phase = .input →
          node.readyIn = node.requiredIn ∧ 0 < node.requiredIn) ∧
    (∀ t, ((Action.graph actions).start mode n).TakesTurns t →
      ∀ turn m r, t.turn? = some turn → turn.callback = some ⟨m, .input, r⟩ →
        ∃ node, t.nodes.get? m = some node ∧
          node.readyIn = node.requiredIn ∧ 0 < node.requiredIn ∧
          (t.marked node).Nodup ∧ node.requiredIn ≤ (t.marked node).length) ∧
    (∀ budget, ∀ c ∈ ((Action.graph actions).activate budget mode n).callbacks,
      ∃ t turn, ((Action.graph actions).start mode n).TakesTurns t ∧
        t.turn? = some turn ∧ turn.callback = some c) ∧
    ∀ (t : Graph σ) m node, t.nodes.get? m = some node → ∀ p ∈ node.inputs,
      (t.resetReady m).isCounted p = false := by
  obtain ⟨htidy, htallied⟩ : (Action.graph actions).Tidy ∧
      (Action.graph actions).Tallied :=
    Action.graph_induction (P := fun g => g.Tidy ∧ g.Tallied)
      ⟨Graph.Tidy.empty, Graph.Tallied.empty⟩
      (fun a _ h => ⟨h.1.perform a, h.2.perform h.1 a⟩) actions
  generalize Action.graph actions = g at htidy htallied
  obtain ⟨s, hs, hst⟩ := htallied.exists_start htidy mode n
  -- a node of a graph between two turns and the same node in the flow
  have hnode : ∀ {t : Graph σ} {u : Flow σ} {m : NodeId} {node : Node σ},
      t.Shows g.layout (some n) u → t.nodes.get? m = some node →
      u.queued m = t.ready.contains m ∧ u.phase m = node.phase ∧
        u.ready m = node.readyIn ∧ g.layout.network.required m = node.requiredIn := by
    intro t u m node hu hm
    have hlayout := hu.node hm
    rw [← hu.flow]
    simp [Graph.flow, Layout.network, hlayout, hm, Node.layout]
  refine ⟨?_, ?_, fun _ _ => Graph.exists_turn_of_mem_activate,
    fun _ _ _ hm _ => Graph.isCounted_resetReady hm⟩
  · intro t ht m node hm hqueued hφ
    obtain ⟨u, hu, hut⟩ := ht.shows htidy.layout hs hst
    obtain ⟨hq, hp, hr, hreq⟩ := hnode hu hm
    have hgate := hut.complete (hq.trans hqueued) (hp.trans hφ)
    rw [hr, hreq] at hgate
    exact hgate.symm
  · intro t ht turn m r hturn hcall
    obtain ⟨u, hu, hut⟩ := ht.shows htidy.layout hs hst
    obtain ⟨m', hqueued, hturned⟩ := hu.turn? htidy.layout hturn
    rw [hturned.callback] at hcall
    obtain ⟨rfl, hφ⟩ := Network.phase_of_callback hcall
    obtain ⟨node, hm⟩ := hu.exists_node_of_queued htidy.layout hqueued
    obtain ⟨hpos, hcount⟩ := hut.complete hqueued hφ
    obtain ⟨-, -, hr, hreq⟩ := hnode hu hm
    rw [hr, hreq] at hcount
    rw [hreq] at hpos
    refine ⟨node, hm, hcount, hpos, ?_, ?_⟩
    · have hnodup := htidy.layout.nodup m .input
      rw [hu.portsOf hm .input] at hnodup
      exact hnodup.filter _
    · rw [← hcount]
      exact (hu.tallied htidy.layout hut).readyIn_le hm

end MediaGraph

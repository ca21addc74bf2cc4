/-
Counters that are kept step by step are what a count from scratch would be.

* `Network.Exact`: a node counts exactly the inputs that are marked as counted;
* `Exact.serve`: every turn keeps that, for processors of any kind;
* `Graph.Exact`: besides, the node requires exactly its inputs that are not
  optional;
* `Exact.perform`: every action on a tidy graph keeps that, except for the one
  that overrides how many inputs the node requires;
* `Graph.Counters`, `Action.counters_agree`: what the counters of all nodes say of
  their inputs, in every graph that a client can make and between any two turns.
-/
import MediaGraph.Proofs.Course

namespace MediaGraph

variable {σ : Type}

/-! ### Turns -/

namespace Network

variable {N : Network} {D : Option NodeId} {n m : NodeId} {s t : Flow σ}

/-- A node counts exactly the inputs that are marked as counted. -/
def Exact (N : Network) (n : NodeId) (s : Flow σ) : Prop :=
  s.ready n = (N.inputs n).countP s.counted

namespace Exact

lemma congr (h : N.Exact n s) (hready : t.ready = s.ready)
    (hcounted : t.counted = s.counted) : N.Exact n t := by
  rw [Exact, hready, hcounted]
  exact h

/-- The inputs of a node `m` are marked anew, and its count is taken from the new
marks. -/
lemma mark (hN : N.Proper) (h : N.Exact n s) {k : Nat} {P : PortId → Bool}
    (hready : t.ready = Function.update s.ready m k)
    (hcounted : t.counted = fun p => if p ∈ N.inputs m then P p else s.counted p)
    (hk : m = n → k = (N.inputs m).countP P) : N.Exact n t := by
  rw [Exact, hready, hcounted]
  rcases eq_or_ne n m with rfl | hne
  · rw [Function.update_self, hk rfl]
    exact List.countP_congr fun p hp => by rw [if_pos hp]
  · rw [Function.update_of_ne hne, countP_inputs_of_ne hN hne]
    exact h

/-- A node starts a new round. -/
lemma reset (hN : N.Proper) (h : N.Exact n s) (m : NodeId) :
    N.Exact n (N.reset m s) :=
  h.mark (P := fun _ => false) hN rfl rfl fun _ => by simp

/-- The inputs of a node that were consumed are not counted any more. -/
lemma dropConsumed (hN : N.Proper) (h : N.Exact n s) (m : NodeId) :
    N.Exact n (N.dropConsumed m s) := by
  rw [N.dropConsumed_eq hN]
  refine h.mark (P := fun p => s.counted p && N.holds s.slot p) hN rfl rfl ?_
  rintro rfl
  have hsplit := N.countP_holds (N.inputs m) s.counted s.slot
  rw [Exact] at h
  omega

/-- The inputs of a node are counted anew. -/
lemma checkIn (hN : N.Proper) (h : N.Exact n s) (m : NodeId) :
    N.Exact n (N.checkIn D m s) := by
  rw [checkIn_eq]
  exact h.mark (P := N.isUntouched s.slot) hN rfl rfl fun _ => rfl

/-- An announcement that counts an input marks it. -/
lemma announce (hN : N.Proper) (h : N.Exact n s) {c : NodeId} {p : PortId}
    (hp : p ∈ N.inputs c) : N.Exact n (N.announce s p) := by
  rw [Exact, N.ready_announce hN hp, N.countP_announce hN hp, h]

/-- The outputs of a node are announced. -/
lemma checkOut (hN : N.Proper) (h : N.Exact n s) (m : NodeId) :
    N.Exact n (N.checkOut m s) :=
  checkOut_induction hN h fun _ _ _ _ hp h => h.announce hN hp

variable [Processor σ]

/-- A processor is called. -/
lemma call (hN : N.Proper) (h : N.Exact n s) (m : NodeId) (x : σ) (side : Side) :
    N.Exact n (report D m side (N.call m x side s)).flow := by
  have hwrite : ∀ {t : Flow σ} (y : σ) (v : PortView), N.Exact n t →
      N.Exact n ((N.writeView m v (t.setProcessor m y)).countCall side) := by
    intro t y v ht
    obtain ⟨slot, hslot⟩ := N.exists_writeView_eq m v (t.setProcessor m y)
    rw [hslot]
    exact ht.congr rfl rfl
  refine Exact.congr ?_ (ready_report _) (counted_report _)
  cases side with
  | input =>
      have hcalled := fun y v => hwrite y v (h.reset hN m)
      simp only [Network.call]
      split
      · exact (hcalled _ _).congr rfl rfl
      · exact hcalled _ _
  | output =>
      have hcalled := fun y v => (hwrite y v h).dropConsumed hN m
      simp only [Network.call]
      split
      · exact (hcalled _ _).congr rfl rfl
      · exact hcalled _ _

/-- A turn is taken. -/
theorem serve (hN : N.Proper) (h : N.Exact n s) (m : NodeId) :
    N.Exact n (N.serve D m s).flow := by
  have hleft : N.Exact n (s.dequeue m).countTurn := h.congr rfl rfl
  unfold Network.serve
  split
  · exact h.congr rfl rfl
  · unfold serveNode
    split
    · exact hleft.call hN m _ .input
    · exact hleft.call hN m _ .output
    · split
      · exact hleft.reset hN m
      · exact (hleft.checkIn hN m).checkOut hN m
    · exact hleft.checkOut hN m

end Exact

end Network

/-! ### Marked and required inputs -/

namespace Graph

/-- Whether a port is an input that is not optional. -/
def isRequired (g : Graph σ) (p : PortId) : Bool :=
  (g.ports.get? p).any (·.isRequired)

/-- A marked port is listed by its owner. -/
structure Marking (g : Graph σ) : Prop extends g.Listing where
  listed : ∀ {p port node}, g.ports.get? p = some port → port.counted = true →
    g.nodes.get? port.owner = some node → p ∈ node.inputs.toList

/-- A node requires exactly its inputs that are not optional, and counts exactly
those that are marked as counted. -/
structure Exact (g : Graph σ) (n : NodeId) : Prop where
  required : ∀ {node}, g.nodes.get? n = some node →
    node.requiredIn = node.inputs.toList.countP g.isRequired
  ready : ∀ {node}, g.nodes.get? n = some node →
    node.readyIn = node.inputs.toList.countP g.isCounted

variable {g g' : Graph σ} {n m : NodeId} {p q : PortId}

/-- The marked ports of a tidy graph are listed by their owners. -/
lemma Tallied.marking (h : g.Tallied) (ht : g.Tidy) : g.Marking where
  toListing := ht.listing
  listed hp hc hn := by
    have hreq := (h.counted hp hc).2
    simp only [Port.isRequired, Bool.and_eq_true, decide_eq_true_eq] at hreq
    exact (ht.mem_inputs_iff hn hp).mpr ⟨rfl, hreq.1⟩

/-- Marked ports are required inputs. -/
lemma Tallied.isRequired_of_isCounted (h : g.Tallied) (hc : g.isCounted p = true) :
    g.isRequired p = true := by
  obtain ⟨port, hp, hc⟩ := (Option.any_eq_true _ _).mp hc
  simpa [isRequired, hp] using (h.counted hp hc).2

/-- One mark of a list is taken away. -/
lemma countP_unmark {α : Type*} [DecidableEq α] {l : List α} (hl : l.Nodup) (f : α → Bool)
    (p : α) :
    l.countP (Function.update f p false) =
      l.countP f - if p ∈ l ∧ f p = true then 1 else 0 := by
  rcases hf : f p with _ | _
  · rw [← hf, Function.update_eq_self]
    simp [hf]
  · by_cases hp : p ∈ l
    · have hback : f = Function.update (Function.update f p false) p true := by
        rw [Function.update_idem, ← hf, Function.update_eq_self]
      have := Network.countP_update hl hp (Function.update_self p false f)
      rw [← hback] at this
      simp [hp, this]
    · have hsame : l.countP (Function.update f p false) = l.countP f :=
        List.countP_congr fun q hq => by
          rw [Function.update_of_ne (by rintro rfl; exact hp hq)]
      simp [hp, hsame]

/-- What is not marked can be left out. -/
lemma countP_filter_ne (l : List PortId) {f : PortId → Bool} (hf : f p = false) :
    (l.filter (· ≠ p)).countP f = l.countP f := by
  rw [List.countP_filter]
  refine List.countP_congr fun q _ => ?_
  rcases eq_or_ne q p with rfl | hq
  · simp [hf]
  · simp [hq]

/-! ### Taking a graph apart -/

lemma isRequired_detach (g : Graph σ) (p : PortId) :
    (g.detach p).isRequired = g.isRequired := by
  funext q
  rw [isRequired, isRequired, Tallied.get?_ports_detach]
  split
  · cases g.ports.get? q <;> rfl
  · rfl

lemma isRequired_breakLink (g : Graph σ) (p : PortId) :
    (g.breakLink p).isRequired = g.isRequired := by
  unfold Graph.breakLink
  split
  · exact g.isRequired_detach p
  · rename_i l _
    exact ((g.detach p).isRequired_detach l.peer).trans (g.isRequired_detach p)

lemma isRequired_dropPort (g : Graph σ) (p : PortId) :
    (g.dropPort p).isRequired = Function.update g.isRequired p false := by
  funext q
  rw [Function.update_apply, ← isRequired_breakLink g p]
  simp only [isRequired, Graph.dropPort, Arena.get?_erase, eq_comm (a := p)]
  split <;> rfl

/-- A node after a port was freed is the node before, up to its count. -/
lemma exists_of_get?_detach {node' : Node σ}
    (h : (g.detach p).nodes.get? m = some node') :
    ∃ node, g.nodes.get? m = some node ∧ node' =
      if g.isCounted p = true ∧ (g.ports.get? p).map (·.owner) = some m then
        { node with readyIn := node.readyIn - 1 } else node := by
  rw [Tallied.get?_nodes_detach, Option.map_eq_some_iff] at h
  exact h.imp fun _ h => ⟨h.1, h.2.symm⟩

/-- The inputs of a node stay when a port goes. -/
lemma exists_of_get?_dropPort {node' : Node σ}
    (h : (g.dropPort p).nodes.get? m = some node') :
    ∃ node, g.nodes.get? m = some node ∧ node'.inputs = node.inputs := by
  have hlayout := congrFun (congrArg Layout.node (g.layout_dropPort p)) m
  rw [Layout.node_drop] at hlayout
  simp only [Graph.layout, h, Option.map_some] at hlayout
  obtain ⟨node, hm, heq⟩ := Option.map_eq_some_iff.mp hlayout.symm
  exact ⟨node, hm, (congrArg NodeLayout.inputs heq).symm⟩

namespace Marking

lemma detach (h : g.Marking) (p : PortId) : (g.detach p).Marking where
  toListing := h.toListing.detach p
  listed {q port node'} hq hc hm := by
    rw [Tallied.get?_ports_detach] at hq
    split at hq
    · obtain ⟨port, -, rfl⟩ := Option.map_eq_some_iff.mp hq
      cases hc
    · obtain ⟨node, hold, rfl⟩ := exists_of_get?_detach hm
      have hmem := h.listed hq hc hold
      split <;> exact hmem

lemma breakLink (h : g.Marking) (p : PortId) : (g.breakLink p).Marking := by
  unfold Graph.breakLink
  split
  · exact h.detach p
  · rename_i l _
    have hfreed := (h.detach p).detach l.peer
    exact ⟨⟨hfreed.nodup, hfreed.owner⟩, hfreed.listed⟩

lemma dropPort (h : g.Marking) (p : PortId) : (g.dropPort p).Marking where
  toListing := h.toListing.dropPort p
  listed {q port node} hq hc hm := by
    simp only [Graph.dropPort, Arena.get?_erase] at hq
    split at hq
    · cases hq
    · exact (h.breakLink p).listed hq hc hm

end Marking

namespace Exact

/-- A port is freed, and taken back out of the count of its owner. -/
lemma detach (h : g.Exact n) (hg : g.Marking) (p : PortId) : (g.detach p).Exact n where
  required hn := by
    obtain ⟨node, hold, rfl⟩ := exists_of_get?_detach hn
    have hreq := h.required hold
    rw [isRequired_detach]
    split <;> exact hreq
  ready hn := by
    obtain ⟨node, hold, rfl⟩ := exists_of_get?_detach hn
    -- the port is marked and belongs to the node exactly if it is a marked input
    have hiff : (g.isCounted p = true ∧ (g.ports.get? p).map (·.owner) = some n) ↔
        p ∈ node.inputs.toList ∧ g.isCounted p = true := by
      constructor
      · rintro ⟨hc, ho⟩
        obtain ⟨port, hp, rfl⟩ := Option.map_eq_some_iff.mp ho
        exact ⟨hg.listed hp (by simpa [isCounted, hp] using hc) hold, hc⟩
      · rintro ⟨hmem, hc⟩
        obtain ⟨port, hp, -⟩ := (Option.any_eq_true _ _).mp hc
        exact ⟨hc, by rw [hp, Option.map_some, hg.owner hold hmem hp]⟩
    rw [Tallied.isCounted_detach]
    split
    · rename_i hc
      rw [countP_unmark (hg.nodup hold), if_pos (hiff.mp hc), ← h.ready hold]
    · rename_i hc
      rw [countP_unmark (hg.nodup hold), if_neg fun hc' => hc (hiff.mpr hc'),
        Nat.sub_zero]
      exact h.ready hold

/-- A link is broken. -/
lemma breakLink (h : g.Exact n) (hg : g.Marking) (p : PortId) :
    (g.breakLink p).Exact n := by
  unfold Graph.breakLink
  split
  · exact h.detach hg p
  · rename_i l _
    have hfreed := (h.detach hg p).detach (hg.detach p) l.peer
    exact ⟨hfreed.required, hfreed.ready⟩

/-- A port goes with its link, and is one required input less if it was one. -/
lemma countP_dropPort (h : g.Exact n) (hg : g.Marking) {node : Node σ}
    (hn : (g.dropPort p).nodes.get? n = some node) :
    node.inputs.toList.countP (g.dropPort p).isRequired =
      node.requiredIn - if p ∈ node.inputs.toList ∧ g.isRequired p = true then 1 else 0 := by
  obtain ⟨old, hold, hin⟩ := exists_of_get?_dropPort hn
  have hbroken := (h.breakLink hg p).required hn
  rw [isRequired_breakLink] at hbroken
  rw [isRequired_dropPort, countP_unmark (hin ▸ hg.nodup hold), ← hbroken]

/-- A port goes with its link, which takes its mark out of the count. -/
lemma ready_dropPort (h : g.Exact n) (hg : g.Marking) {node : Node σ}
    (hn : (g.dropPort p).nodes.get? n = some node) :
    node.readyIn = node.inputs.toList.countP (g.dropPort p).isCounted := by
  rw [isCounted_dropPort]
  exact (h.breakLink hg p).ready hn

/-- A port goes with its link, and it is no input of the node. -/
lemma dropPort (h : g.Exact n) (hg : g.Marking)
    (hp : ∀ node, g.nodes.get? n = some node → p ∉ node.inputs.toList) :
    (g.dropPort p).Exact n where
  required hn := by
    obtain ⟨old, hold, hin⟩ := exists_of_get?_dropPort hn
    rw [h.countP_dropPort hg hn, if_neg, Nat.sub_zero]
    rw [hin]
    exact fun hmem => hp old hold hmem.1
  ready hn := h.ready_dropPort hg hn

/-- The ports of another node go with their links. -/
lemma foldl_dropPort {ports : List PortId} (h : g.Exact n) (hg : g.Marking)
    (hp : ∀ p ∈ ports, ∀ node, g.nodes.get? n = some node → p ∉ node.inputs.toList) :
    (ports.foldl Graph.dropPort g).Exact n := by
  induction ports generalizing g with
  | nil => exact h
  | cons p ports ih =>
      refine ih (h.dropPort hg (hp p List.mem_cons_self)) (hg.dropPort p) ?_
      intro q hq node hn
      obtain ⟨old, hold, hin⟩ := exists_of_get?_dropPort hn
      rw [hin]
      exact hp q (List.mem_cons_of_mem p hq) old hold

/-! ### Edits -/

/-- A node keeps its inputs and its counters, and its inputs keep their marks. -/
lemma congr (h : g.Exact n)
    (hnode : ∀ {node'}, g'.nodes.get? n = some node' →
      ∃ node, g.nodes.get? n = some node ∧ node'.inputs = node.inputs ∧
        node'.requiredIn = node.requiredIn ∧ node'.readyIn = node.readyIn)
    (hports : ∀ {node p}, g.nodes.get? n = some node → p ∈ node.inputs.toList →
      g'.isRequired p = g.isRequired p ∧ g'.isCounted p = g.isCounted p) :
    g'.Exact n where
  required hn := by
    obtain ⟨node, hold, hin, hreq, -⟩ := hnode hn
    rw [hin, hreq, h.required hold]
    exact List.countP_congr fun p hp => by rw [(hports hold hp).1]
  ready hn := by
    obtain ⟨node, hold, hin, -, hready⟩ := hnode hn
    rw [hin, hready, h.ready hold]
    exact List.countP_congr fun p hp => by rw [(hports hold hp).2]

/-- A node changes. -/
lemma modifyNode (h : g.Exact n) {f : Node σ → Node σ}
    (hf : m = n → ∀ node, (f node).inputs = node.inputs ∧
      (f node).requiredIn = node.requiredIn ∧ (f node).readyIn = node.readyIn) :
    (g.modifyNode m f).Exact n := by
  refine h.congr (fun {node'} hn => ?_) fun _ _ => ⟨rfl, rfl⟩
  simp only [Graph.modifyNode, Arena.get?_modify] at hn
  split at hn
  · rename_i hmn
    obtain ⟨node, hold, rfl⟩ := Option.map_eq_some_iff.mp hn
    exact ⟨node, hold, hf hmn node⟩
  · exact ⟨node', hn, rfl, rfl, rfl⟩

lemma addNode (h : g.Exact n) (x : σ) : ((Graph.addNode x).run g).2.Exact n := by
  rcases eq_or_ne n g.nodes.fresh with rfl | hne
  · constructor <;>
      · intro node hn
        simp only [Graph.addNode, ExceptT.run, Arena.get?_insert, if_pos] at hn
        cases hn
        rfl
  · refine h.congr (fun {node} hn => ?_) fun _ _ => ⟨rfl, rfl⟩
    simp only [Graph.addNode, ExceptT.run, Arena.get?_insert, if_neg hne] at hn
    exact ⟨node, hn, rfl, rfl, rfl⟩

lemma removeNode (h : g.Exact n) (hg : g.Marking) (ht : g.Tidy) (m : NodeId) :
    ((Graph.removeNode m).run g).2.Exact n := by
  simp only [Graph.removeNode, ExceptT.run]
  rcases hm : g.nodes.get? m with _ | node
  · exact h
  · simp only [← Array.foldl_toList]
    rcases eq_or_ne m n with rfl | hne
    · constructor <;>
        · intro _ hn
          simp at hn
    · -- the ports of a node are no inputs of another one
      have hother : ∀ p ∈ (node.inputs ++ node.outputs).toList, ∀ node',
          g.nodes.get? n = some node' → p ∉ node'.inputs.toList := by
        intro p hp node' hn hp'
        have hmem : ∃ d, p ∈ node.portsOf d := by
          rw [Array.mem_toList_iff, Array.mem_append] at hp
          exact hp.elim (fun hp => ⟨.input, hp⟩) fun hp => ⟨.output, hp⟩
        obtain ⟨d, hd⟩ := hmem
        obtain ⟨port, hport, rfl, -⟩ := ht.linked.lists hm hd
        exact hne ((ht.mem_inputs_iff hn hport).mp hp').1
      have hbare := (show ({ g with ready := (g.ready.remove m).2 } : Graph σ).Exact n
        from ⟨h.required, h.ready⟩).foldl_dropPort
          ⟨⟨hg.nodup, hg.owner⟩, hg.listed⟩ hother
      refine hbare.congr (fun {node'} hn => ?_) fun _ _ => ⟨rfl, rfl⟩
      simp only [Arena.get?_erase, if_neg hne] at hn
      exact ⟨node', hn, rfl, rfl, rfl⟩

lemma addPort (h : g.Exact n) (ht : g.Tidy) (m : NodeId) (d : Direction)
    (flags : PortFlags) : ((Graph.addPort m d flags).run g).2.Exact n := by
  -- the fresh port is listed nowhere yet
  have hfresh : ∀ {node}, g.nodes.get? n = some node →
      g.ports.fresh ∉ node.inputs.toList := by
    intro node hn hp
    obtain ⟨port, hport, -⟩ :=
      ht.linked.lists (d := .input) hn (Array.mem_toList_iff.mp hp)
    simp [get?_fresh] at hport
  simp only [Graph.addPort, ExceptT.run]
  rcases hm : g.nodes.get? m with _ | node
  · exact h
  · simp only
    split
    · exact h
    · set port : Port := { direction := d, owner := m, flags } with hport
      set grown : Graph σ := { g with ports := g.ports.insert port } with hgrown
      have hreq : grown.isRequired g.ports.fresh = port.isRequired := by
        simp [hgrown, isRequired, Arena.get?_insert]
      have hcounted : grown.isCounted g.ports.fresh = false := by
        simp [hgrown, isCounted, Arena.get?_insert, hport]
      have hkept : grown.Exact n := by
        refine h.congr (fun {node} hn => ⟨node, hn, rfl, rfl, rfl⟩) fun {node p} hn hp => ?_
        have hne : p ≠ g.ports.fresh := by
          rintro rfl
          exact hfresh hn hp
        simp [hgrown, isRequired, isCounted, Arena.get?_insert, hne]
      rcases eq_or_ne m n with rfl | hne
      · have hrequired := hkept.required hm
        have hready := hkept.ready hm
        refine ⟨fun {node'} hn => ?_, fun {node'} hn => ?_⟩ <;>
          simp only [Graph.modifyNode, Arena.get?_modify_self, hgrown, hm,
            Option.map_some, Option.some.injEq] at hn <;> subst hn
        · change _ = List.countP grown.isRequired _
          cases d
          · simp only [if_true, Array.toList_push, List.countP_append,
              List.countP_singleton, hreq, ← hrequired]
            split <;> rfl
          · have : port.isRequired = false := by simp [hport, Port.isRequired]
            simpa [this] using hrequired
        · change _ = List.countP grown.isCounted _
          cases d
          · simpa [hcounted] using hready
          · simpa using hready
      · exact hkept.modifyNode fun hmn => absurd hmn hne

/-- A removed port takes its mark and its requirement away. -/
lemma removePort (h : g.Exact n) (ht : g.Tidy) (hg : g.Tallied) (p : PortId) :
    ((Graph.removePort p).run g).2.Exact n := by
  have hmarking := hg.marking ht
  simp only [Graph.removePort, ExceptT.run]
  rcases hp : g.ports.get? p with _ | port
  · exact h
  · simp only
    rcases eq_or_ne port.owner n with rfl | hne
    · split
      · rename_i hnone
        constructor <;>
          · intro node hn
            rw [hnone] at hn
            cases hn
      · rename_i node hn
        obtain ⟨old, hold, hin⟩ := exists_of_get?_dropPort hn
        have hrequired := h.countP_dropPort hmarking hn
        have hready := h.ready_dropPort hmarking hn
        -- the port is a required input of its owner exactly if it is required
        have hiff : (p ∈ node.inputs.toList ∧ g.isRequired p = true) ↔
            port.isRequired = true := by
          simp only [hin, ht.mem_inputs_iff hold hp, isRequired, hp, Option.any_some,
            true_and, and_iff_right_iff_imp, Port.isRequired, Bool.and_eq_true,
            decide_eq_true_eq]
          exact And.left
        simp only [hiff] at hrequired
        have hle := List.countP_mono_left (l := node.inputs.toList)
          fun q _ => (hg.dropPort ht.listing p).isRequired_of_isCounted (p := q)
        rw [← hready, hrequired] at hle
        refine ⟨fun {node'} hn' => ?_, fun {node'} hn' => ?_⟩ <;>
          simp only [Graph.modifyNode, Arena.get?_modify_self, hn, Option.map_some,
            Option.some.injEq] at hn' <;> subst hn'
        · change _ = List.countP (g.dropPort p).isRequired _
          rw [Array.toList_filter, countP_filter_ne _ (by simp [isRequired, Graph.dropPort]),
            hrequired]
          split <;> rfl
        · change _ = List.countP (g.dropPort p).isCounted _
          rw [Array.toList_filter, countP_filter_ne _ (by simp [isCounted, Graph.dropPort]),
            ← hready]
          refine Nat.min_eq_left (hle.trans_eq ?_)
          split <;> rfl
    · have hdropped := h.dropPort hmarking (p := p) fun node hn hmem =>
        hne ((ht.mem_inputs_iff hn hp).mp hmem).1
      split
      · exact hdropped
      · exact hdropped.modifyNode fun hmn => absurd hmn hne

lemma link (h : g.Exact n) (p q : PortId) : ((Graph.link p q).run g).2.Exact n := by
  have hlinked : ∀ {g : Graph σ} (p : PortId) (l : Link), g.Exact n →
      (g.modifyPort p ({ · with link := some l })).Exact n := by
    intro g p l h
    refine h.congr (fun {node} hn => ⟨node, hn, rfl, rfl, rfl⟩) fun {_ q} _ _ => ?_
    simp only [isRequired, isCounted, Graph.modifyPort, Arena.get?_modify]
    split
    · cases g.ports.get? q <;> exact ⟨rfl, rfl⟩
    · exact ⟨rfl, rfl⟩
  have hslot : ({ g with slots := g.slots.insert {} } : Graph σ).Exact n :=
    ⟨h.required, h.ready⟩
  simp only [Graph.link, ExceptT.run]
  repeat' split
  all_goals first
    | exact h
    | exact hlinked q _ (hlinked p _ hslot)

lemma unlink (h : g.Exact n) (hg : g.Marking) (p q : PortId) :
    ((Graph.unlink p q).run g).2.Exact n := by
  simp only [Graph.unlink, ExceptT.run]
  repeat' split
  all_goals first
    | exact h
    | exact h.breakLink hg p

lemma setRequiredIn (h : g.Exact n) (hne : m ≠ n) (required : Nat) :
    ((Graph.setRequiredIn m required).run g).2.Exact n := by
  simp only [Graph.setRequiredIn, ExceptT.run]
  split
  · exact h
  · exact h.modifyNode fun hmn => absurd hmn hne

lemma setFlags (h : g.Exact n) (m : NodeId) (flags : NodeFlags) :
    ((Graph.setFlags m flags).run g).2.Exact n := by
  simp only [Graph.setFlags, ExceptT.run]
  split
  · exact h
  · exact h.modifyNode fun _ _ => ⟨rfl, rfl, rfl⟩

lemma writeSlot (h : g.Exact n) (p : PortId) (f : Slot → Slot) :
    (g.modifySlotOf p f).Exact n := by
  unfold Graph.modifySlotOf
  split <;> exact ⟨h.required, h.ready⟩

lemma reuseBuffer [Processor σ] (h : g.Exact n) (p : PortId) (b : BufferId) :
    ((Graph.reuseBuffer p b).run g).2.Exact n := by
  simp only [Graph.reuseBuffer, ExceptT.run]
  repeat' split
  all_goals first
    | exact h
    | exact h.modifyNode fun _ _ => ⟨rfl, rfl, rfl⟩

end Exact

/-! ### Activations -/

section Flow

variable {Λ : Layout} {D : Option NodeId} {s : Flow σ}

/-- The counters of a live node are exact exactly if those of its flow are, and the
network requires all inputs of the node that are not optional. -/
lemma Shows.exact_iff (hΛ : Λ.Proper) (h : g.Shows Λ D s) {node : Node σ}
    (hn : g.nodes.get? n = some node) :
    g.Exact n ↔ (Λ.network.required n =
      (Λ.network.inputs n).countP fun p => !Λ.network.optional p) ∧
        Λ.network.Exact n s := by
  have hrequired : node.inputs.toList.countP g.isRequired =
      (Λ.network.inputs n).countP fun p => !Λ.network.optional p := by
    rw [h.inputs_eq hn]
    exact List.countP_congr fun p hp => by
      rw [← h.isRequired_eq hΛ hp]
      rfl
  rw [Network.Exact, h.counted_eq, h.ready_eq hn, h.required_eq hn, ← hrequired,
    ← h.inputs_eq hn]
  refine ⟨fun he => ⟨he.required hn, he.ready hn⟩, fun he => ⟨?_, ?_⟩⟩ <;>
    · intro node' hn'
      obtain rfl := Option.some.inj (hn.symm.trans hn')
      first
        | exact he.1
        | exact he.2

/-- What turns do to the flow of a graph keeps the counters of a node exact. -/
lemma Exact.of_shows (h : g.Exact n) (hΛ : Λ.Proper) (hs : g.Shows Λ D s)
    {D' : Option NodeId} {t : Graph σ} {u : Flow σ} (ht : t.Shows Λ D' u)
    (hkeep : Λ.network.Exact n s → Λ.network.Exact n u) : t.Exact n := by
  rcases hn : t.nodes.get? n with _ | node
  · constructor <;>
      · intro node hn'
        rw [hn] at hn'
        cases hn'
  · obtain ⟨old, hold, -⟩ := hs.exists_node (ht.node hn)
    obtain ⟨hreq, hready⟩ := (hs.exact_iff hΛ hold).mp h
    exact (ht.exact_iff hΛ hn).mpr ⟨hreq, hkeep hready⟩

end Flow

/-- A node becomes the driver. -/
lemma Exact.start (h : g.Exact n) (mode : Mode) (m : NodeId) :
    (g.start mode m).Exact n := by
  have hphase : (g.modifyNode m ({ · with phase := mode.phase })).Exact n :=
    h.modifyNode fun _ _ => ⟨rfl, rfl, rfl⟩
  exact ⟨hphase.required, hphase.ready⟩

variable [Processor σ]

lemma Exact.activate (h : g.Exact n) (ht : g.Tidy) (budget : Nat) (mode : Mode)
    (m : NodeId) : (g.activate budget mode m).graph.Exact n := by
  rcases hm : g.nodes.get? m with _ | node
  · simpa only [Graph.activate, hm] using h
  · obtain ⟨t, hends, hshows⟩ :=
      ht.shows.activate ht.layout (ht.shows.node hm) budget mode
    have hstart := ht.shows.start ht.layout (ht.shows.node hm) mode
    exact (h.start mode m).of_shows ht.layout hstart hshows fun he =>
      (hends.invariant (P := g.layout.network.Exact n) he fun _ k _ hu =>
        hu.serve ht.layout.network k).congr rfl rfl

/-- Every action keeps the counters of a node exact, except for the one that
overrides its requirement. -/
theorem Exact.perform (h : g.Exact n) (ht : g.Tidy) (hg : g.Tallied) (a : Action σ)
    (ha : ∀ k, a ≠ .setRequiredIn n k) : (a.perform g).2.Exact n := by
  cases a with
  | addNode processor =>
      rw [Action.perform, Action.snd_issue]
      exact h.addNode processor
  | removeNode m => exact h.removeNode (hg.marking ht) ht m
  | addPort m direction flags =>
      rw [Action.perform, Action.snd_issue]
      exact h.addPort ht m direction flags
  | removePort p => exact h.removePort ht hg p
  | link p q =>
      rw [Action.perform, Action.snd_issue]
      exact h.link p q
  | unlink p q => exact h.unlink (hg.marking ht) p q
  | setRequiredIn m required =>
      exact h.setRequiredIn (fun hmn => ha required (by rw [hmn])) required
  | setFlags m flags => exact h.setFlags m flags
  | reuseBuffer p b => exact h.reuseBuffer p b
  | writeSlot p c => exact h.writeSlot p _
  | activate budget mode m => exact h.activate ht budget mode m

/-- The counters of a node are exact in every graph that actions make without
overriding what the node requires. -/
lemma Exact.graph {actions : List (Action σ)}
    (h : ∀ k, .setRequiredIn n k ∉ actions) : (Action.graph actions).Exact n := by
  induction actions using List.reverseRecOn with
  | nil => constructor <;> simp [Graph.empty]
  | append_singleton actions a ih =>
      rw [Action.graph_concat]
      have hbefore := ih fun k hk => h k (List.mem_append_left _ hk)
      refine hbefore.perform (Action.tidy_graph actions)
        (Action.tallied_graph actions) a ?_
      rintro k rfl
      exact h k (List.mem_append_right _ (List.mem_singleton_self _))

/-! ### The counters of all nodes -/

omit [Processor σ] in
/-- What the counters of the nodes say of their inputs. The nodes in `plain` are
those whose requirement was not overridden. -/
structure Counters (g : Graph σ) (plain : NodeId → Prop) : Prop where
  nodup : ∀ {n node}, g.nodes.get? n = some node → node.inputs.toList.Nodup
  /-- Marked inputs are linked, and they are not optional. -/
  marked : ∀ {n node p}, g.nodes.get? n = some node → p ∈ node.inputs →
    g.isCounted p = true →
      ∃ port, g.ports.get? p = some port ∧ port.link.isSome = true ∧
        port.isRequired = true
  ready_le : ∀ {n node}, g.nodes.get? n = some node →
    node.readyIn ≤ node.inputs.toList.countP g.isCounted
  exactly : ∀ {n}, plain n → g.Exact n

omit [Processor σ] in
/-- What turns do to the flow of a graph keeps the counters in agreement. -/
lemma Tallied.counters (h : g.Tallied) {Λ : Layout} {D : Option NodeId} {s : Flow σ}
    (hΛ : Λ.Proper) (hs : g.Shows Λ D s) {plain : NodeId → Prop}
    (hplain : ∀ n, plain n → g.Exact n) : g.Counters plain where
  nodup hn := by
    rw [hs.inputs_eq hn]
    exact hΛ.nodup _ .input
  marked _ _ hc := by
    obtain ⟨port, hp, hc⟩ := (Option.any_eq_true _ _).mp hc
    exact ⟨port, hp, h.counted hp hc⟩
  ready_le := h.ready
  exactly hn := hplain _ hn

end Graph

/-- In every graph that a client can make, and between any two turns of an
activation of it, marked inputs are linked and not optional, and no node counts
more inputs than are marked. A node whose requirement was never overridden
requires exactly its inputs that are not optional, and counts exactly those that
are marked. -/
theorem Action.counters_agree [Processor σ] (actions : List (Action σ)) (mode : Mode)
    (n : NodeId) :
    (Action.graph actions).Counters (fun m => ∀ k, .setRequiredIn m k ∉ actions) ∧
    ∀ t, ((Action.graph actions).start mode n).TakesTurns t →
      t.Counters fun m => ∀ k, .setRequiredIn m k ∉ actions := by
  have htidy := Action.tidy_graph actions
  have htallied := Action.tallied_graph actions
  have hexact : ∀ m, (∀ k, .setRequiredIn m k ∉ actions) →
      (Action.graph actions).Exact m := fun _ h => .graph h
  generalize Action.graph actions = g at htidy htallied hexact
  refine ⟨htallied.counters htidy.layout htidy.shows hexact, fun t ht => ?_⟩
  obtain ⟨s, hs, hst⟩ := htallied.exists_start htidy mode n
  obtain ⟨u, hu, hut, hkeep⟩ := ht.invariant htidy.layout hs
    (P := fun u => g.layout.network.Tallied u ∧
      ∀ m, g.layout.network.Exact m s → g.layout.network.Exact m u)
    ⟨hst, fun _ h => h⟩ fun u k _ hu => ⟨hu.1.serve htidy.layout.network k,
      fun m hm => (hu.2 m hm).serve htidy.layout.network k⟩
  exact (hu.tallied htidy.layout hut).counters htidy.layout hu fun m hm =>
    ((hexact m hm).start mode n).of_shows htidy.layout hs hu (hkeep m)

end MediaGraph

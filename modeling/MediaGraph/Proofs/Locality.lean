/-
Parts of a graph that no operation leaves.

A part is a set of names. It is closed if it has the ports of its nodes, the
owners of its ports and, for each of its links, both ends and the slot. Two
graphs in which a closed part is the same stay so in step: whatever an
operation on the part does in one of them, it does in the other, and it leaves
what is outside of the part alone.

* `Graph.AgreeOn`, `Graph.Closed`: graphs with the same entries under some
  names, and closed parts;
* `Graph.Alike`: what two runs on the same part have in common between any two
  of their operations;
* `Alike.modifyNode`, `Alike.modifyPort`, `Alike.modifySlotOf`, `Alike.enqueue`,
  `Alike.dequeue`: the elementary operations, of which all the others consist;
* `Alike.callback`, `Alike.serve`, `Alike.turn?`: calls and turns;
* `Alike.settle`, `Alike.activate`: runs of turns and activations, which end in
  the same way after the same calls.
-/
import Mathlib.Data.Set.Basic
import MediaGraph.Proofs.Actions
import MediaGraph.Proofs.Network.Activation

namespace MediaGraph

variable {σ : Type}

namespace Graph

/-! ### Parts -/

/-- Two graphs have the same entries under these names. -/
structure AgreeOn (P : Set Name) (g h : Graph σ) : Prop where
  node : ∀ n, ⟨.node, n⟩ ∈ P → h.nodes.get? n = g.nodes.get? n
  port : ∀ p, ⟨.port, p⟩ ∈ P → h.ports.get? p = g.ports.get? p
  slot : ∀ s, ⟨.slot, s⟩ ∈ P → h.slots.get? s = g.slots.get? s

/-- What the entries of a part refer to belongs to the part: the ports of its
nodes, the owners of its ports, and for each of its links the far end and the
slot. -/
structure Closed (P : Set Name) (g : Graph σ) : Prop where
  port : ∀ {n node d p}, ⟨.node, n⟩ ∈ P → g.nodes.get? n = some node →
    p ∈ node.portsOf d → ⟨.port, p⟩ ∈ P
  owner : ∀ {p port}, ⟨.port, p⟩ ∈ P → g.ports.get? p = some port →
    ⟨.node, port.owner⟩ ∈ P
  link : ∀ {p port l}, ⟨.port, p⟩ ∈ P → g.ports.get? p = some port →
    port.link = some l → ⟨.port, l.peer⟩ ∈ P ∧ ⟨.slot, l.slot⟩ ∈ P

variable {P Q : Set Name} {b g h k : Graph σ} {n : NodeId} {p : PortId} {node : Node σ}

lemma Closed.input_mem (hP : g.Closed P) (hn : ⟨.node, n⟩ ∈ P)
    (hnode : g.nodes.get? n = some node) (hp : p ∈ node.inputs.toList) :
    ⟨.port, p⟩ ∈ P :=
  hP.port (d := .input) hn hnode (Array.mem_toList_iff.mp hp)

lemma Closed.output_mem (hP : g.Closed P) (hn : ⟨.node, n⟩ ∈ P)
    (hnode : g.nodes.get? n = some node) (hp : p ∈ node.outputs.toList) :
    ⟨.port, p⟩ ∈ P :=
  hP.port (d := .output) hn hnode (Array.mem_toList_iff.mp hp)

namespace AgreeOn

lemma refl (P : Set Name) (g : Graph σ) : g.AgreeOn P g :=
  ⟨fun _ _ => rfl, fun _ _ => rfl, fun _ _ => rfl⟩

lemma symm (H : g.AgreeOn P h) : h.AgreeOn P g :=
  ⟨fun n hn => (H.node n hn).symm, fun p hp => (H.port p hp).symm,
    fun s hs => (H.slot s hs).symm⟩

lemma trans (H : g.AgreeOn P h) (H' : h.AgreeOn P k) : g.AgreeOn P k :=
  ⟨fun n hn => (H'.node n hn).trans (H.node n hn),
    fun p hp => (H'.port p hp).trans (H.port p hp),
    fun s hs => (H'.slot s hs).trans (H.slot s hs)⟩

lemma mono (H : g.AgreeOn Q h) (hPQ : P ⊆ Q) : g.AgreeOn P h :=
  ⟨fun n hn => H.node n (hPQ hn), fun p hp => H.port p (hPQ hp),
    fun s hs => H.slot s (hPQ hs)⟩

end AgreeOn

/-- The graphs `g` and `h` are the same on a closed part, which has everyone who
waits in them, and `h` is the graph `b` outside of the part. -/
structure Alike (P : Set Name) (b g h : Graph σ) : Prop where
  closed : g.Closed P
  same : g.AgreeOn P h
  rest : b.AgreeOn Pᶜ h
  driver : h.driver = g.driver
  queue : ∃ L, g.ready.Lists L ∧ h.ready.Lists L ∧ ∀ n ∈ L, ⟨.node, n⟩ ∈ P
  place : ∀ n, ⟨.node, n⟩ ∈ P →
    (h.ready.links.get? n).isSome = (g.ready.links.get? n).isSome

namespace Alike

/-! ### Elementary operations -/

/-- A node of the part changes, but keeps its ports. -/
lemma modifyNode (H : Alike P b g h) (hn : ⟨.node, n⟩ ∈ P) {f : Node σ → Node σ}
    (hf : ∀ x, (f x).inputs = x.inputs ∧ (f x).outputs = x.outputs) :
    Alike P b (g.modifyNode n f) (h.modifyNode n f) := by
  refine ⟨⟨fun {m node d p} hm hnode hp => ?_, H.closed.owner, H.closed.link⟩,
    ⟨fun m hm => ?_, H.same.port, H.same.slot⟩,
    ⟨fun m hm => ?_, H.rest.port, H.rest.slot⟩, H.driver, H.queue, H.place⟩
  · simp only [Graph.modifyNode, Arena.get?_modify] at hnode
    split at hnode
    · obtain ⟨x, hx, rfl⟩ := Option.map_eq_some_iff.mp hnode
      have hports : (f x).portsOf d = x.portsOf d := by
        cases d
        · exact (hf x).1
        · exact (hf x).2
      exact H.closed.port hm hx (hports ▸ hp)
    · exact H.closed.port hm hnode hp
  · simp only [Graph.modifyNode, Arena.get?_modify, H.same.node m hm]
  · have hne : n ≠ m := by
      rintro rfl
      exact hm hn
    rw [Graph.modifyNode, Arena.get?_modify_ne _ _ hne, H.rest.node m hm]

/-- A port of the part changes, but keeps its owner and its link. -/
lemma modifyPort (H : Alike P b g h) (hp : ⟨.port, p⟩ ∈ P) {f : Port → Port}
    (hf : ∀ x, (f x).owner = x.owner ∧ (f x).link = x.link) :
    Alike P b (g.modifyPort p f) (h.modifyPort p f) := by
  have hback : ∀ {q port}, (g.modifyPort p f).ports.get? q = some port →
      ∃ port', g.ports.get? q = some port' ∧ port.owner = port'.owner ∧
        port.link = port'.link := by
    intro q port hport
    simp only [Graph.modifyPort, Arena.get?_modify] at hport
    split at hport
    · obtain ⟨x, hx, rfl⟩ := Option.map_eq_some_iff.mp hport
      exact ⟨x, hx, hf x⟩
    · exact ⟨port, hport, rfl, rfl⟩
  refine ⟨⟨H.closed.port, fun {q port} hq hport => ?_,
      fun {q port l} hq hport hl => ?_⟩,
    ⟨H.same.node, fun q hq => ?_, H.same.slot⟩,
    ⟨H.rest.node, fun q hq => ?_, H.rest.slot⟩, H.driver, H.queue, H.place⟩
  · obtain ⟨port', hport', howner, -⟩ := hback hport
    exact howner ▸ H.closed.owner hq hport'
  · obtain ⟨port', hport', -, hlink⟩ := hback hport
    exact H.closed.link hq hport' (hlink ▸ hl)
  · simp only [Graph.modifyPort, Arena.get?_modify, H.same.port q hq]
  · have hne : p ≠ q := by
      rintro rfl
      exact hq hp
    rw [Graph.modifyPort, Arena.get?_modify_ne _ _ hne, H.rest.port q hq]

lemma slotId?_eq (H : Alike P b g h) (hp : ⟨.port, p⟩ ∈ P) :
    h.slotId? p = g.slotId? p := by
  rw [slotId?, slotId?, H.same.port p hp]

/-- The slot behind a port of the part is in the part. -/
lemma slot_mem (H : Alike P b g h) (hp : ⟨.port, p⟩ ∈ P) {s : SlotId}
    (hs : g.slotId? p = some s) : ⟨.slot, s⟩ ∈ P := by
  obtain ⟨port, hport, hs⟩ := Option.bind_eq_some_iff.mp hs
  obtain ⟨l, hl, rfl⟩ := Option.map_eq_some_iff.mp hs
  exact (H.closed.link hp hport hl).2

lemma slotOf?_eq (H : Alike P b g h) (hp : ⟨.port, p⟩ ∈ P) :
    h.slotOf? p = g.slotOf? p := by
  rw [slotOf?, slotOf?, H.slotId?_eq hp]
  rcases hs : g.slotId? p with _ | s
  · rfl
  · exact H.same.slot s (H.slot_mem hp hs)

/-- The slot behind a port of the part changes. -/
lemma modifySlotOf (H : Alike P b g h) (hp : ⟨.port, p⟩ ∈ P) (f : Slot → Slot) :
    Alike P b (g.modifySlotOf p f) (h.modifySlotOf p f) := by
  simp only [Graph.modifySlotOf, H.slotId?_eq hp]
  rcases hs : g.slotId? p with _ | s
  · exact H
  · have hmem := H.slot_mem hp hs
    refine ⟨⟨H.closed.port, H.closed.owner, H.closed.link⟩,
      ⟨H.same.node, H.same.port, fun t ht => ?_⟩,
      ⟨H.rest.node, H.rest.port, fun t ht => ?_⟩, H.driver, H.queue, H.place⟩
    · simp only [Arena.get?_modify, H.same.slot t ht]
    · have hne : s ≠ t := by
        rintro rfl
        exact ht hmem
      simp only [Arena.get?_modify_ne _ _ hne, H.rest.slot t ht]

/-- The queues change, and list the same nodes of the part as each other. -/
lemma setReady (H : Alike P b g h) {q r : ReadyQueue} {L : List NodeId}
    (hq : q.Lists L) (hr : r.Lists L) (hL : ∀ n ∈ L, ⟨.node, n⟩ ∈ P)
    (hqg : ∀ n, (q.links.get? n).isSome = (g.ready.links.get? n).isSome)
    (hrh : ∀ n, (r.links.get? n).isSome = (h.ready.links.get? n).isSome) :
    Alike P b { g with ready := q } { h with ready := r } where
  closed := ⟨H.closed.port, H.closed.owner, H.closed.link⟩
  same := ⟨H.same.node, H.same.port, H.same.slot⟩
  rest := ⟨H.rest.node, H.rest.port, H.rest.slot⟩
  driver := H.driver
  queue := ⟨L, hq, hr, hL⟩
  place n hn := by rw [hrh, hqg, H.place n hn]

/-- A node of the part is queued. -/
lemma enqueue (H : Alike P b g h) (hn : ⟨.node, n⟩ ∈ P) :
    Alike P b (g.enqueue n) (h.enqueue n) := by
  obtain ⟨L, hg, hh, hL⟩ := H.queue
  have hplace := H.place n hn
  rcases hlink : g.ready.links.get? n with _ | link
  · rw [hlink, Option.isSome_none, Option.isSome_eq_false_iff,
      Option.isNone_iff_eq_none] at hplace
    simp only [Graph.enqueue, hg.pushBack_eq_self (.inr hlink),
      hh.pushBack_eq_self (.inr hplace)]
    exact H
  · rw [hlink, Option.isSome_some, Option.isSome_iff_exists] at hplace
    obtain ⟨link', hlink'⟩ := hplace
    by_cases hmem : n ∈ L
    · simp only [Graph.enqueue, hg.pushBack_eq_self (.inl hmem),
        hh.pushBack_eq_self (.inl hmem)]
      exact H
    · exact H.setReady (hg.pushBack hmem hlink).2 (hh.pushBack hmem hlink').2
        (by grind) (by simp) (by simp)

/-- A node leaves the queue. -/
lemma dequeue (H : Alike P b g h) (n : NodeId) :
    Alike P b (g.dequeue n) (h.dequeue n) := by
  obtain ⟨L, hg, hh, hL⟩ := H.queue
  by_cases hmem : n ∈ L
  · obtain ⟨A, B, rfl⟩ := List.append_of_mem hmem
    exact H.setReady hg.remove.2 hh.remove.2 (by grind) (by simp) (by simp)
  · simp only [Graph.dequeue, hg.remove_eq_self hmem, hh.remove_eq_self hmem]
    exact H

/-- Nobody waits any more in either graph. -/
lemma clear (H : Alike P b g h) :
    Alike P b { g with ready := g.ready.clear } { h with ready := h.ready.clear } := by
  obtain ⟨L, hg, hh, -⟩ := H.queue
  exact H.setReady hg.clear hh.clear (by simp) (by simp) (by simp)

/-- The counters of an activation are outside of every part. -/
lemma setStats (H : Alike P b g h) (x y : ActivationStats) :
    Alike P b { g with stats := x } { h with stats := y } :=
  ⟨⟨H.closed.port, H.closed.owner, H.closed.link⟩,
    ⟨H.same.node, H.same.port, H.same.slot⟩,
    ⟨H.rest.node, H.rest.port, H.rest.slot⟩, H.driver, H.queue, H.place⟩

lemma setDriver (H : Alike P b g h) (D : Option NodeId) :
    Alike P b { g with driver := D } { h with driver := D } :=
  ⟨⟨H.closed.port, H.closed.owner, H.closed.link⟩,
    ⟨H.same.node, H.same.port, H.same.slot⟩,
    ⟨H.rest.node, H.rest.port, H.rest.slot⟩, rfl, H.queue, H.place⟩

/-- An operation is applied to members of the part one after the other. -/
lemma foldl {α : Type*} {f : Graph σ → α → Graph σ} {l : List α}
    (hf : ∀ x ∈ l, ∀ {g h}, Alike P b g h → Alike P b (f g x) (f h x))
    (H : Alike P b g h) : Alike P b (l.foldl f g) (l.foldl f h) := by
  induction l generalizing g h with
  | nil => exact H
  | cons x l ih =>
      exact ih (fun y hy => hf y (List.mem_cons_of_mem x hy))
        (hf x List.mem_cons_self H)

/-- A node of the part moves to another phase. -/
lemma setPhase (H : Alike P b g h) (hn : ⟨.node, n⟩ ∈ P) (φ : Phase) :
    Alike P b (g.modifyNode n ({ · with phase := φ }))
      (h.modifyNode n ({ · with phase := φ })) :=
  H.modifyNode hn fun _ => ⟨rfl, rfl⟩

/-! ### Counting -/

/-- An input of the part is marked as counted, or as not counted. -/
lemma setCounted (H : Alike P b g h) (hp : ⟨.port, p⟩ ∈ P) (c : Bool) :
    Alike P b (g.modifyPort p ({ · with counted := c }))
      (h.modifyPort p ({ · with counted := c })) :=
  H.modifyPort hp fun _ => ⟨rfl, rfl⟩

/-- Starts a node's round of counting anew. -/
lemma resetReady (H : Alike P b g h) (hn : ⟨.node, n⟩ ∈ P) :
    Alike P b (g.resetReady n) (h.resetReady n) := by
  simp only [Graph.resetReady, H.same.node n hn]
  rcases hnode : g.nodes.get? n with _ | node
  · exact H
  · simp only [← Array.foldl_toList]
    have Hnode : Alike P b (g.modifyNode n ({ · with readyIn := 0 }))
        (h.modifyNode n ({ · with readyIn := 0 })) :=
      H.modifyNode hn fun _ => ⟨rfl, rfl⟩
    exact Hnode.foldl fun p hp _ _ H' =>
      H'.setCounted (H.closed.input_mem hn hnode hp) false

lemma count (H : Alike P b g h) (hn : ⟨.node, n⟩ ∈ P) (hp : ⟨.port, p⟩ ∈ P) :
    Alike P b (g.count n p) (h.count n p) :=
  (H.setCounted hp true).modifyNode hn fun _ => ⟨rfl, rfl⟩

lemma uncountDrained (H : Alike P b g h) (hn : ⟨.node, n⟩ ∈ P)
    (hp : ⟨.port, p⟩ ∈ P) : Alike P b (uncountDrained n g p) (uncountDrained n h p) := by
  simp only [Graph.uncountDrained, H.same.port p hp, H.slotOf?_eq hp]
  split
  · exact H
  · split
    · exact (H.setCounted hp false).modifyNode hn fun _ => ⟨rfl, rfl⟩
    · exact H

lemma dropConsumed (H : Alike P b g h) (hn : ⟨.node, n⟩ ∈ P) :
    Alike P b (g.dropConsumed n) (h.dropConsumed n) := by
  simp only [Graph.dropConsumed, H.same.node n hn]
  rcases hnode : g.nodes.get? n with _ | node
  · exact H
  · simp only [← Array.foldl_toList]
    exact H.foldl fun p hp _ _ H' =>
      H'.uncountDrained hn (H.closed.input_mem hn hnode hp)

/-! ### Checking inputs and outputs -/

lemma ask (H : Alike P b g h) (hp : ⟨.port, p⟩ ∈ P) :
    Alike P b (g.ask p) (h.ask p) := by
  simp only [Graph.ask, H.same.port p hp, H.driver]
  rcases hport : g.ports.get? p with _ | port
  · exact H
  · have howner := H.closed.owner hp hport
    simp only [H.same.node _ howner]
    split
    · exact H
    · split
      · exact (H.setPhase howner .output).enqueue howner
      · exact H

lemma checkInputPort (H : Alike P b g h) (hn : ⟨.node, n⟩ ∈ P)
    (hp : ⟨.port, p⟩ ∈ P) :
    Alike P b (checkInputPort n g p) (checkInputPort n h p) := by
  simp only [Graph.checkInputPort, H.same.port p hp]
  rcases hport : g.ports.get? p with _ | port
  · exact H
  · simp only
    rcases hl : port.link with _ | l
    · exact H
    · obtain ⟨hpeer, hslot⟩ := H.closed.link hp hport hl
      simp only [H.same.slot _ hslot]
      split
      · exact H.ask hpeer
      · split
        · exact H.count hn hp
        · exact H
      · exact H
      · exact H

lemma checkInput (H : Alike P b g h) (hn : ⟨.node, n⟩ ∈ P) :
    Alike P b (g.checkInput n) (h.checkInput n) := by
  simp only [Graph.checkInput, H.same.node n hn]
  rcases hnode : g.nodes.get? n with _ | node
  · exact H
  · simp only [← Array.foldl_toList]
    exact (H.resetReady hn).foldl fun p hp _ _ H' =>
      H'.checkInputPort hn (H.closed.input_mem hn hnode hp)

lemma announce (H : Alike P b g h) (hp : ⟨.port, p⟩ ∈ P) :
    Alike P b (g.announce p) (h.announce p) := by
  simp only [Graph.announce, H.same.port p hp]
  rcases hport : g.ports.get? p with _ | port
  · exact H
  · have howner := H.closed.owner hp hport
    have hslot : (port.link.bind fun l => h.slots.get? l.slot) =
        port.link.bind fun l => g.slots.get? l.slot := by
      rcases hl : port.link with _ | l
      · rfl
      · exact H.same.slot _ (H.closed.link hp hport hl).2
    simp only [hslot]
    -- the input is counted in both graphs or in neither of them
    generalize (port.isRequired && !port.counted &&
      (port.link.bind fun l => g.slots.get? l.slot).any (·.hasData)) = fresh
    have Hcount : Alike P b (if fresh then g.count port.owner p else g)
        (if fresh then h.count port.owner p else h) := by
      cases fresh
      · exact H
      · exact H.count howner hp
    generalize (if fresh then g.count port.owner p else g) = g' at Hcount
    generalize (if fresh then h.count port.owner p else h) = h' at Hcount
    rw [Hcount.same.node _ howner]
    split
    · exact Hcount
    · split
      · exact (Hcount.setPhase howner .input).enqueue howner
      · exact Hcount.dequeue _

lemma checkOutputPort (H : Alike P b g h) (hp : ⟨.port, p⟩ ∈ P) :
    Alike P b (g.checkOutputPort p) (h.checkOutputPort p) := by
  have hpeer : h.peer? p = g.peer? p := by rw [peer?, peer?, H.same.port p hp]
  simp only [Graph.checkOutputPort, hpeer]
  rcases hq : g.peer? p with _ | q
  · exact H
  · obtain ⟨port, hport, hq⟩ := Option.bind_eq_some_iff.mp hq
    obtain ⟨l, hl, rfl⟩ := Option.map_eq_some_iff.mp hq
    exact H.announce (H.closed.link hp hport hl).1

lemma checkOutput (H : Alike P b g h) (hn : ⟨.node, n⟩ ∈ P) :
    Alike P b (g.checkOutput n) (h.checkOutput n) := by
  simp only [Graph.checkOutput, H.same.node n hn]
  rcases hnode : g.nodes.get? n with _ | node
  · exact H
  · simp only [← Array.foldl_toList]
    exact H.foldl fun p hp _ _ H' =>
      H'.checkOutputPort (H.closed.output_mem hn hnode hp)

lemma demandsNothing_eq (H : Alike P b g h)
    (hports : ∀ d, ∀ p ∈ node.portsOf d, ⟨.port, p⟩ ∈ P) :
    h.demandsNothing node = g.demandsNothing node := by
  have hany : (node.inputs.any fun p => (h.ports.get? p).any (·.isRequired)) =
      node.inputs.any fun p => (g.ports.get? p).any (·.isRequired) := by
    rw [Bool.eq_iff_iff, Array.any_eq_true', Array.any_eq_true']
    refine exists_congr fun p => and_congr_right fun hp => ?_
    rw [H.same.port p (hports .input p hp)]
  rw [demandsNothing, demandsNothing, hany]

/-! ### Calls -/

/-- Both nodes see the same. -/
lemma view_eq (H : Alike P b g h)
    (hports : ∀ d, ∀ p ∈ node.portsOf d, ⟨.port, p⟩ ∈ P) :
    h.view node = g.view node := by
  rw [view, view, PortView.mk.injEq]
  constructor <;> refine List.map_congr_left fun p hp => ?_
  · have hp := hports .input p (Array.mem_toList_iff.mp hp)
    rw [inputView, inputView, H.same.port p hp, H.slotOf?_eq hp]
  · exact H.slotOf?_eq (hports .output p (Array.mem_toList_iff.mp hp))

lemma writeSlots (H : Alike P b g h) {ports : List PortId}
    (hports : ∀ p ∈ ports, ⟨.port, p⟩ ∈ P) (slots : List (Option Slot)) :
    Alike P b (g.writeSlots ports slots) (h.writeSlots ports slots) := by
  refine H.foldl fun x hx _ _ H' => ?_
  obtain ⟨p, _ | c⟩ := x
  · exact H'
  · exact H'.modifySlotOf (hports p (List.of_mem_zip hx).1) _

lemma writeView (H : Alike P b g h)
    (hports : ∀ d, ∀ p ∈ node.portsOf d, ⟨.port, p⟩ ∈ P) (v : PortView) :
    Alike P b (g.writeView node v) (h.writeView node v) :=
  (H.writeSlots (fun p hp => hports .input p (Array.mem_toList_iff.mp hp)) _).writeSlots
    (fun p hp => hports .output p (Array.mem_toList_iff.mp hp)) _

/-- What a call leaves behind is written back. -/
lemma called (H : Alike P b g h) (hn : ⟨.node, n⟩ ∈ P)
    (hports : ∀ d, ∀ p ∈ node.portsOf d, ⟨.port, p⟩ ∈ P) (side : Side) (x : σ)
    (v : PortView) :
    Alike P b (((g.modifyNode n (afterCall side x)).writeView node v).countCall side)
      (((h.modifyNode n (afterCall side x)).writeView node v).countCall side) :=
  ((H.modifyNode hn fun _ => by cases side <;> exact ⟨rfl, rfl⟩).writeView
    hports v).setStats _ _

variable [Processor σ]

/-- A call of a node of the part ends in the same way in both graphs. -/
lemma callback (H : Alike P b g h) (hn : ⟨.node, n⟩ ∈ P)
    (hports : ∀ d, ∀ p ∈ node.portsOf d, ⟨.port, p⟩ ∈ P) (side : Side) :
    ∃ r g' h', g.callback n node side = (r, g') ∧ h.callback n node side = (r, h') ∧
      Alike P b g' h' := by
  cases side with
  | input =>
      have Hreset := H.resetReady hn
      simp only [Graph.callback, Hreset.view_eq hports]
      have Hcalled := Hreset.called hn hports .input
      split
      · exact ⟨_, _, _, rfl, rfl, (Hcalled _ _).setPhase hn _⟩
      · exact ⟨_, _, _, rfl, rfl, Hcalled _ _⟩
  | output =>
      simp only [Graph.callback, H.view_eq hports]
      have Hcalled := fun x v => (H.called hn hports .output x v).dropConsumed hn
      split
      · exact ⟨_, _, _, rfl, rfl, (Hcalled _ _).setPhase hn _⟩
      · exact ⟨_, _, _, rfl, rfl, Hcalled _ _⟩

end Alike

/-! ### Turns and activations -/

/-- Two turns call the same node of the part, if any, end in the same way, and
leave graphs behind that are the same on the part. -/
structure AlikeTurns (P : Set Name) (b : Graph σ) (t u : Turn σ) : Prop where
  graph : Alike P b t.graph u.graph
  callback : u.callback = t.callback
  failure : u.failure = t.failure
  inside : ∀ c ∈ t.callback, ⟨.node, c.node⟩ ∈ P

/-- Two activations end in the same way after the same calls, all of nodes of the
part, and leave graphs behind that are the same on the part. -/
structure AlikeActivations (P : Set Name) (b : Graph σ) (x y : Activation σ) :
    Prop where
  graph : Alike P b x.graph y.graph
  result : y.result = x.result
  callbacks : y.callbacks = x.callbacks
  inside : ∀ c ∈ x.callbacks, ⟨.node, c.node⟩ ∈ P

/-- The end of two activations: there is no driver any more, and nobody waits. -/
lemma AlikeActivations.finish {x y : Activation σ} (H : AlikeActivations P b x y) :
    AlikeActivations P b (finish x) (finish y) := by
  refine ⟨?_, H.result, congrArg List.reverse H.callbacks,
    fun c hc => H.inside c (List.mem_reverse.mp hc)⟩
  simp only [Graph.finish, H.result]
  split
  · exact H.graph.setDriver none
  · exact H.graph.clear.setDriver none

namespace Alike

/-- The same node of the part becomes the driver. -/
lemma start (H : Alike P b g h) (hn : ⟨.node, n⟩ ∈ P) (mode : Mode) :
    Alike P b (g.start mode n) (h.start mode n) :=
  (((H.setPhase hn mode.phase).setStats {} {}).setDriver (some n)).enqueue hn

variable [Processor σ]

/-- Both graphs serve a node of the part in the same way. -/
lemma serve (H : Alike P b g h) (hn : ⟨.node, n⟩ ∈ P)
    (hports : ∀ d, ∀ p ∈ node.portsOf d, ⟨.port, p⟩ ∈ P) :
    AlikeTurns P b (g.serve n node) (h.serve n node) := by
  have hinside : ∀ {side r}, ∀ c ∈ some (⟨n, side, r⟩ : Callback),
      ⟨.node, c.node⟩ ∈ P := by
    rintro side r c ⟨⟩
    exact hn
  unfold Graph.serve
  split
  · obtain ⟨_ | verdict, g', h', hg, hh, H'⟩ := H.callback hn hports .input
    · rw [hg, hh]
      exact ⟨H', rfl, rfl, hinside⟩
    · rw [hg, hh]
      refine ⟨?_, rfl, rfl, hinside⟩
      simp only [H'.driver]
      split
      · exact H'
      · exact H'.enqueue hn
  · obtain ⟨_ | verdict, g', h', hg, hh, H'⟩ := H.callback hn hports .output
    · rw [hg, hh]
      exact ⟨H', rfl, rfl, hinside⟩
    · rw [hg, hh]
      exact ⟨H'.enqueue hn, rfl, rfl, hinside⟩
  · rw [H.demandsNothing_eq hports]
    split
    · exact ⟨H.resetReady hn, rfl, rfl, by simp⟩
    · exact ⟨(H.checkInput hn).checkOutput hn, rfl, rfl, by simp⟩
  · exact ⟨H.checkOutput hn, rfl, rfl, by simp⟩

/-- Nobody waits in either graph, or it is the turn of the same node in both. -/
lemma turn? (H : Alike P b g h) :
    (g.turn? = none ∧ h.turn? = none) ∨
      ∃ t u, g.turn? = some t ∧ h.turn? = some u ∧ AlikeTurns P b t u := by
  obtain ⟨L, hg, hh, hL⟩ := H.queue
  rcases L with _ | ⟨n, L⟩
  · refine .inl ⟨?_, ?_⟩
    · rw [Graph.turn?, hg.popFront_nil]
    · rw [Graph.turn?, hh.popFront_nil]
  · have hn := hL n List.mem_cons_self
    obtain ⟨q, hq, hLq⟩ : ∃ q, g.ready.popFront = (some n, q) ∧ q.Lists L :=
      ⟨_, Prod.ext hg.popFront.1 rfl, hg.popFront.2⟩
    obtain ⟨r, hr, hLr⟩ : ∃ r, h.ready.popFront = (some n, r) ∧ r.Lists L :=
      ⟨_, Prod.ext hh.popFront.1 rfl, hh.popFront.2⟩
    have H' := H.setReady hLq hLr (fun m hm => hL m (List.mem_cons_of_mem n hm))
      (fun m => by rw [← ReadyQueue.isSome_get?_popFront g.ready m, hq])
      (fun m => by rw [← ReadyQueue.isSome_get?_popFront h.ready m, hr])
    simp only [Graph.turn?, hq, hr, H.same.node n hn]
    rcases hnode : g.nodes.get? n with _ | node
    · exact .inr ⟨_, _, rfl, rfl, H', rfl, rfl, by simp⟩
    · exact .inr ⟨_, _, rfl, rfl, (H'.setStats _ _).serve hn
        fun d p hp => H.closed.port hn hnode hp⟩

/-- Runs of turns on the part end in the same way after the same calls. -/
lemma settle (H : Alike P b g h) (budget : Nat) {calls : List Callback}
    (hcalls : ∀ c ∈ calls, ⟨.node, c.node⟩ ∈ P) :
    AlikeActivations P b (settle budget g calls) (settle budget h calls) := by
  induction budget generalizing g h calls with
  | zero =>
      rcases H.turn? with ⟨hg, hh⟩ | ⟨t, u, hg, hh, -⟩
      · rw [settle_of_none hg, settle_of_none hh]
        exact ⟨H, rfl, rfl, hcalls⟩
      · rw [settle_zero hg, settle_zero hh]
        exact ⟨H, rfl, rfl, hcalls⟩
  | succ budget ih =>
      rcases H.turn? with ⟨hg, hh⟩ | ⟨t, u, hg, hh, Hturn⟩
      · rw [settle_of_none hg, settle_of_none hh]
        exact ⟨H, rfl, rfl, hcalls⟩
      · have hcalls' : ∀ c ∈ t.callback.toList ++ calls, ⟨.node, c.node⟩ ∈ P := by
          intro c hc
          rcases List.mem_append.mp hc with hc | hc
          · exact Hturn.inside c (by simpa using hc)
          · exact hcalls c hc
        rw [settle_succ hg, settle_succ hh, Hturn.callback, Hturn.failure]
        rcases t.failure with _ | e
        · exact ih Hturn.graph hcalls'
        · exact ⟨Hturn.graph, rfl, rfl, hcalls'⟩

/-- Activations of a node of the part end in the same way after the same calls. -/
theorem activate (H : Alike P b g h) (hn : ⟨.node, n⟩ ∈ P) (budget : Nat)
    (mode : Mode) :
    AlikeActivations P b (g.activate budget mode n) (h.activate budget mode n) := by
  simp only [Graph.activate, H.same.node n hn]
  split
  · exact ⟨H, rfl, rfl, by simp⟩
  · exact ((H.start hn mode).settle budget (by simp)).finish

end Alike

end Graph

end MediaGraph

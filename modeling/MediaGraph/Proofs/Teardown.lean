/-
Removing a node is removing its ports.

* `Graph.takeApart`: what becomes of a graph when a port goes with a given link;
  `commute_takeApart`: it commutes with what commutes with its steps, so that two
  ports go in any order unless a link joins them;
* `Graph.dropPort_comm`, `foldl_dropPort_perm`: if links come in pairs, ports go in any
  order;
* `Graph.withoutNode`: a graph without a node, whose ports are left behind;
  `removeNode_eq`: a node may go before its ports;
* `Graph.Sheds`: some ports of a node were removed; `exists_removePort`,
  `exists_removePorts`: this is what one removal does, and what many do;
* `Graph.Purged`: nothing of a node is left;
* `Action.removeNode_eq_removePorts`: in every graph that a client can make, to remove
  a node is to remove its ports, in any order, and then the node.
-/
import Mathlib.Logic.Function.Conjugate
import MediaGraph.Proofs.Refusals

namespace MediaGraph

open Function (Commute)

variable {σ : Type}

/-! ### Arenas -/

namespace Arena

variable {kind : Kind} {α : Type}

/-- Holes are made in any order. -/
lemma erase_comm (a : Arena kind α) (h h' : Handle kind) :
    (a.erase h).erase h' = (a.erase h').erase h := by
  refine ext_get? (by simp) fun x => ?_
  simp only [get?_erase]
  split <;> split <;> rfl

/-- An entry changes before or after another one goes, or it goes itself. -/
lemma erase_modify (a : Arena kind α) (h h' : Handle kind) (f : α → α) :
    (a.modify h f).erase h' = (a.erase h').modify h f := by
  refine ext_get? (by simp) fun x => ?_
  simp only [get?_erase, get?_modify]
  split <;> split <;> rfl

/-- Two entries are changed alike in any order. -/
lemma modify_comm (a : Arena kind α) (h h' : Handle kind) (f : α → α) :
    (a.modify h f).modify h' f = (a.modify h' f).modify h f := by
  refine ext_get? (by simp) fun x => ?_
  simp only [get?_modify]
  split <;> split <;> rfl

/-- A change of an entry that goes does not matter. -/
lemma erase_modify_self (a : Arena kind α) (h : Handle kind) (f : α → α) :
    (a.modify h f).erase h = a.erase h := by
  refine ext_get? (by simp) fun x => ?_
  simp only [get?_erase, get?_modify]
  split <;> rfl

/-- Nothing changes where no entry is live. -/
lemma modify_of_get?_eq_none {a : Arena kind α} {h : Handle kind} (hh : a.get? h = none)
    (f : α → α) : a.modify h f = a := by
  refine ext_get? (by simp) fun x => ?_
  rw [get?_modify]
  split
  · subst_vars
    simp [hh]
  · rfl

end Arena

/-- What follows an edit that succeeds goes on with the graph that the edit left. -/
lemma Edit.run_bind_of_run {α β : Type} {edit : Edit σ α} {f : α → Edit σ β} {x : α}
    {g g' : Graph σ} (h : edit.run g = (.ok x, g')) :
    (edit >>= f).run g = (f x).run g' := by
  have hbind : (edit >>= f).run g = ExceptT.bindCont f (edit.run g).1 (edit.run g).2 := rfl
  rw [hbind, h]
  rfl

namespace Layout

variable {Λ : Layout} {ports : List PortId} {p q : PortId} {l : Link}

/-- A link that is left was there before some ports went. -/
lemma link?_of_foldl_drop (h : (ports.foldl drop Λ).link? q = some l) :
    Λ.link? q = some l := by
  induction ports generalizing Λ with
  | nil => exact h
  | cons p ports ih =>
      have hdrop := ih h
      rw [link?_drop, link?_cut] at hdrop
      split at hdrop
      · cases hdrop
      · exact hdrop

/-- The ports that go are not live any more. -/
lemma port_foldl_drop (hp : p ∈ ports) : (ports.foldl drop Λ).port p = none := by
  have hsite := Λ.site?_foldl_drop ports p
  rw [if_pos hp] at hsite
  exact Option.map_eq_none_iff.mp hsite

/-- If links come in pairs, then the slot of a link goes with each of its ends. -/
lemma Paired.slot_foldl_drop (h : Λ.Paired) (hp : p ∈ ports) (hl : Λ.link? p = some l) :
    (ports.foldl Layout.drop Λ).slot l.slot = false := by
  have h' := h.foldl_drop ports
  have hunlinked : ∀ l', (ports.foldl Layout.drop Λ).link? p ≠ some l' := by
    intro l' hl'
    obtain ⟨port, hport, -⟩ := link?_eq_some.mp hl'
    rw [port_foldl_drop hp] at hport
    cases hport
  by_contra hlive
  rw [Bool.not_eq_false] at hlive
  -- a slot that is left belongs to a link that was there before
  obtain ⟨q, l', hq', hslot⟩ := h'.used hlive
  have hq := link?_of_foldl_drop hq'
  rcases h.pair hl hq hslot.symm with rfl | rfl
  · exact hunlinked l' hq'
  · obtain rfl := Option.some.inj (hq.symm.trans (h.peer hl))
    have hback := h'.peer hq'
    exact hunlinked _ hback

end Layout

namespace Graph

variable {g : Graph σ} {n : NodeId} {p q : PortId} {l m : Option Link}

/-! ### A port is freed -/

/-- The owner of a port that is marked as counted. -/
def countedBy? (g : Graph σ) (p : PortId) : Option NodeId :=
  ((g.ports.get? p).filter (·.counted)).map (·.owner)

/-- A freed port has no link and no mark, and the node that counted it counts one input
less. -/
lemma detach_eq (g : Graph σ) (p : PortId) : g.detach p = { g with
    nodes := (g.countedBy? p).elim g.nodes fun n =>
      g.nodes.modify n fun node => { node with readyIn := node.readyIn - 1 }
    ports := g.ports.modify p ({ · with link := none, counted := false }) } := by
  unfold Graph.detach countedBy?
  rcases hp : g.ports.get? p with _ | port
  · rw [Arena.modify_of_get?_eq_none hp]
    rfl
  · rcases hc : port.counted with _ | _ <;>
      simp [hc, Option.filter, Graph.modifyPort, Graph.modifyNode]

/-- Nobody counts a freed port any more. -/
lemma countedBy?_detach (g : Graph σ) (p q : PortId) :
    (g.detach p).countedBy? q = if p = q then none else g.countedBy? q := by
  simp only [countedBy?, Tallied.get?_ports_detach]
  split
  · rcases g.ports.get? q with _ | port <;> rfl
  · rfl

/-- To free a port again changes nothing. -/
lemma detach_detach (g : Graph σ) (p : PortId) : (g.detach p).detach p = g.detach p := by
  rw [detach_eq (g.detach p) p, countedBy?_detach, if_pos rfl, Option.elim_none]
  have hports : (g.detach p).ports.modify p ({ · with link := none, counted := false }) =
      (g.detach p).ports := by
    refine Arena.ext_get? (by simp) fun q => ?_
    simp only [Arena.get?_modify, Tallied.get?_ports_detach]
    split
    · rcases g.ports.get? q with _ | port <;> rfl
    · rfl
  rw [hports]

/-- Ports are freed in any order. -/
lemma commute_detach (p q : PortId) :
    Commute (detach · p) (detach · q : Graph σ → Graph σ) := by
  intro g
  rcases eq_or_ne p q with rfl | hpq
  · rfl
  · simp only [detach_eq (g.detach _), countedBy?_detach, if_neg hpq, if_neg hpq.symm]
    simp only [detach_eq g]
    rw [Arena.modify_comm]
    rcases g.countedBy? p with _ | n
    · rfl
    · rcases g.countedBy? q with _ | n'
      · rfl
      · simp only [Option.elim_some, Arena.modify_comm _ n n']

/-! ### A port goes with its link -/

/-- A port goes. -/
def erasePort (p : PortId) (g : Graph σ) : Graph σ :=
  { g with ports := g.ports.erase p }

lemma nodes_erasePort (p : PortId) (g : Graph σ) : (erasePort p g).nodes = g.nodes :=
  rfl

/-- A slot goes. -/
def eraseSlot (s : SlotId) (g : Graph σ) : Graph σ :=
  { g with slots := g.slots.erase s }

lemma nodes_eraseSlot (s : SlotId) (g : Graph σ) : (eraseSlot s g).nodes = g.nodes :=
  rfl

/-- The far end of a link, if there is one, is freed, and its slot goes. -/
def releaseLink : Option Link → Graph σ → Graph σ
  | none => id
  | some l => eraseSlot l.slot ∘ (detach · l.peer)

/-- A port that has the link `l`, if there is one, goes with that link. -/
def takeApart (p : PortId) (l : Option Link) : Graph σ → Graph σ :=
  erasePort p ∘ releaseLink l ∘ (detach · p)

lemma takeApart_none (p : PortId) (g : Graph σ) :
    takeApart p none g = erasePort p (g.detach p) :=
  rfl

lemma takeApart_some (p : PortId) (k : Link) (g : Graph σ) :
    takeApart p (some k) g = erasePort p (eraseSlot k.slot ((g.detach p).detach k.peer)) :=
  rfl

/-- A port goes with the link that it has. -/
lemma dropPort_eq (g : Graph σ) (p : PortId) :
    g.dropPort p = takeApart p (g.layout.link? p) g := by
  have hlink : (g.ports.get? p).bind (·.link) = g.layout.link? p := by
    simp only [Layout.link?, Graph.layout]
    rcases g.ports.get? p with _ | port <;> rfl
  unfold Graph.dropPort Graph.breakLink
  rw [hlink]
  rcases g.layout.link? p with _ | l <;> rfl

/-! ### Steps that commute -/

lemma commute_eraseSlot_detach (s : SlotId) (p : PortId) :
    Commute (eraseSlot s) (detach · p : Graph σ → Graph σ) := by
  intro g
  simp only [detach_eq]
  rfl

/-- The port that goes is not the one that is freed: otherwise it would have to be taken
out of the count first. -/
lemma commute_erasePort_detach (h : p ≠ q) :
    Commute (erasePort p) (detach · q : Graph σ → Graph σ) := by
  intro g
  have hcounted : (erasePort p g).countedBy? q = g.countedBy? q := by
    simp only [countedBy?, erasePort, Arena.get?_erase, if_neg h]
  simp only [detach_eq, hcounted]
  simp only [erasePort, Arena.erase_modify]

/-- What commutes with freeing the far end of a link and with the loss of its slot
commutes with the release of that link. -/
lemma commute_releaseLink {f : Graph σ → Graph σ} (hslot : ∀ s, Commute f (eraseSlot s))
    (hpeer : ∀ k ∈ l, Commute f (detach · k.peer)) : Commute f (releaseLink l) := by
  rcases l with _ | k
  · exact .id_right
  · have hboth := (hslot k.slot).comp_right (hpeer k rfl)
    exact hboth

/-- What commutes with the steps of taking a port apart commutes with the whole. -/
lemma commute_takeApart {f : Graph σ → Graph σ} (hport : Commute f (erasePort p))
    (hslot : ∀ s, Commute f (eraseSlot s)) (hpeer : ∀ k ∈ l, Commute f (detach · k.peer))
    (hself : Commute f (detach · p)) : Commute f (takeApart p l) :=
  hport.comp_right ((commute_releaseLink hslot hpeer).comp_right hself)

/-- Two ports go in any order, each with its own link, if no link joins them. -/
lemma takeApart_comm (hpq : p ≠ q) (hl : ∀ k ∈ l, k.peer ≠ q) (hm : ∀ k ∈ m, k.peer ≠ p) :
    Commute (takeApart p l) (takeApart q m : Graph σ → Graph σ) := by
  have hport : Commute (erasePort q) (takeApart p l : Graph σ → Graph σ) := by
    refine commute_takeApart (fun g => ?_) (fun _ _ => rfl)
      (fun k hk => commute_erasePort_detach (hl k hk).symm) (commute_erasePort_detach hpq.symm)
    simp only [erasePort, Arena.erase_comm g.ports p]
  have hslot : ∀ s, Commute (eraseSlot s) (takeApart p l : Graph σ → Graph σ) := by
    refine fun s => commute_takeApart (fun _ => rfl) (fun t g => ?_)
      (fun k _ => commute_eraseSlot_detach s k.peer) (commute_eraseSlot_detach s p)
    simp only [eraseSlot, Arena.erase_comm g.slots s]
  have hfree : ∀ r, r ≠ p → Commute (detach · r) (takeApart p l : Graph σ → Graph σ) := by
    intro r hr
    exact commute_takeApart (commute_erasePort_detach hr.symm).symm
      (fun s => (commute_eraseSlot_detach s r).symm) (fun k _ => commute_detach r k.peer)
      (commute_detach r p)
  exact commute_takeApart hport.symm (fun s => (hslot s).symm)
    (fun k hk => (hfree k.peer (hm k hk)).symm) (hfree q hpq.symm).symm

/-- The second port of a link goes without it, since the link went with the first. -/
lemma takeApart_linked (hpq : p ≠ q) (s : SlotId) (g : Graph σ) :
    takeApart q none (takeApart p (some ⟨q, s⟩) g) =
      erasePort q (erasePort p (eraseSlot s ((g.detach p).detach q))) := by
  rw [takeApart_none, takeApart_some]
  have hport := commute_erasePort_detach hpq (eraseSlot s ((g.detach p).detach q))
  have hslot := commute_eraseSlot_detach s q ((g.detach p).detach q)
  simp only at hport hslot
  rw [← hport, ← hslot, detach_detach]

/-! ### Ports in any order -/

/-- If links come in pairs, two ports go in any order. -/
lemma dropPort_comm (h : g.layout.Paired) (p q : PortId) :
    (g.dropPort p).dropPort q = (g.dropPort q).dropPort p := by
  rcases eq_or_ne p q with rfl | hpq
  · rfl
  have hboth : ∀ p q, (g.dropPort p).dropPort q = takeApart q
      (if q = p ∨ (g.layout.link? p).any (q = ·.peer) then none else g.layout.link? q)
      (takeApart p (g.layout.link? p) g) := by
    intro p q
    rw [dropPort_eq (g.dropPort p), layout_dropPort, Layout.link?_drop, Layout.link?_cut,
      dropPort_eq g]
  rw [hboth p q, hboth q p]
  by_cases hlinked : ∃ s, g.layout.link? p = some ⟨q, s⟩
  · obtain ⟨s, hp⟩ := hlinked
    have hq : g.layout.link? q = some ⟨p, s⟩ := h.peer hp
    simp only [hp, hq, Option.any_some, decide_true, or_true, if_true]
    have hfree : (g.detach q).detach p = (g.detach p).detach q := commute_detach p q g
    rw [takeApart_linked hpq, takeApart_linked hpq.symm, hfree]
    simp only [erasePort, Arena.erase_comm _ p]
  · have hl : ∀ k ∈ g.layout.link? p, k.peer ≠ q := by
      rintro k hk rfl
      exact hlinked ⟨k.slot, hk⟩
    have hm : ∀ k ∈ g.layout.link? q, k.peer ≠ p := by
      rintro k hk rfl
      exact hlinked ⟨k.slot, h.peer hk⟩
    have hfree : ∀ {p q : PortId}, p ≠ q → (∀ k ∈ g.layout.link? p, k.peer ≠ q) →
        ¬ (q = p ∨ (g.layout.link? p).any (q = ·.peer) = true) := by
      rintro p q hpq hl (rfl | hany)
      · exact hpq rfl
      · obtain ⟨k, hk, he⟩ := (Option.any_eq_true _ _).mp hany
        exact hl k hk (of_decide_eq_true he).symm
    rw [if_neg (hfree hpq hl), if_neg (hfree hpq.symm hm)]
    exact (takeApart_comm hpq hl hm g).symm

/-- If links come in pairs, ports go in any order. -/
theorem foldl_dropPort_perm (h : g.layout.Paired) {ports ports' : List PortId}
    (hperm : ports.Perm ports') : ports.foldl dropPort g = ports'.foldl dropPort g := by
  induction hperm generalizing g with
  | nil => rfl
  | cons p _ ih =>
      refine ih (g := g.dropPort p) ?_
      rw [layout_dropPort]
      exact h.drop p
  | swap p q ports => simp only [List.foldl_cons, dropPort_comm h p]
  | trans _ _ ih ih' => exact (ih h).trans (ih' h)

/-! ### A node goes before its ports -/

/-- The graph without a node, and with the queue `r`. The ports of the node are left
behind. -/
def withoutNode (n : NodeId) (r : ReadyQueue) (g : Graph σ) : Graph σ :=
  { g with nodes := g.nodes.erase n, ready := r }

/-- A node goes before or after a port. -/
lemma commute_withoutNode_takeApart (n : NodeId) (r : ReadyQueue) (p : PortId)
    (l : Option Link) : Commute (withoutNode n r) (takeApart p l : Graph σ → Graph σ) := by
  have hfree : ∀ p, Commute (withoutNode n r) (detach · p : Graph σ → Graph σ) := by
    intro p g
    have hcounted : (withoutNode n r g).countedBy? p = g.countedBy? p := rfl
    simp only [detach_eq, hcounted]
    rcases g.countedBy? p with _ | m
    · rfl
    · simp only [withoutNode, Option.elim_some, Arena.erase_modify]
  exact commute_takeApart (fun _ => rfl) (fun _ _ => rfl) (fun k _ => hfree k.peer) (hfree p)

lemma withoutNode_dropPort (n : NodeId) (r : ReadyQueue) (g : Graph σ) (p : PortId) :
    withoutNode n r (g.dropPort p) = (withoutNode n r g).dropPort p := by
  rw [dropPort_eq g, dropPort_eq (withoutNode n r g)]
  exact commute_withoutNode_takeApart n r p _ g

/-- Links still come in pairs without a node. -/
lemma Tidy.paired_withoutNode (h : g.Tidy) (n : NodeId) (r : ReadyQueue) :
    (withoutNode n r g).layout.Paired :=
  h.paired.congr rfl rfl

lemma withoutNode_foldl_dropPort (n : NodeId) (r : ReadyQueue) (g : Graph σ)
    (ports : List PortId) : withoutNode n r (ports.foldl dropPort g) =
      ports.foldl dropPort (withoutNode n r g) :=
  (List.foldl_hom (withoutNode n r) fun g p => (withoutNode_dropPort n r g p).symm).symm

/-- A node may go before its ports. -/
lemma removeNode_eq {node : Node σ} (hn : g.nodes.get? n = some node) :
    (Graph.removeNode n).run g = (.ok node.processor,
      (node.inputs ++ node.outputs).toList.foldl dropPort
        (withoutNode n ((g.ready.remove n).2.forget n) g)) := by
  set dequeued : Graph σ := { g with ready := (g.ready.remove n).2 }
  have hready := dequeued.ready_foldl_dropPort (node.inputs ++ node.outputs).toList
  have hbare := dequeued.withoutNode_foldl_dropPort n ((g.ready.remove n).2.forget n)
    (node.inputs ++ node.outputs).toList
  simp only [Graph.removeNode, ExceptT.run, hn, ← Array.foldl_toList]
  rw [hready]
  exact congrArg (Prod.mk (Except.ok node.processor)) hbare

/-! ### The ports go first -/

/-- To free a port changes the count of a node at most. -/
lemma exists_get?_nodes_detach (p : PortId) {node : Node σ} (hn : g.nodes.get? n = some node) :
    ∃ k, (g.detach p).nodes.get? n = some { node with readyIn := k } := by
  rw [Tallied.get?_nodes_detach, hn, Option.map_some]
  split
  · exact ⟨_, rfl⟩
  · exact ⟨node.readyIn, rfl⟩

/-- A port that goes changes the count of a node at most. -/
lemma exists_get?_nodes_dropPort (p : PortId) {node : Node σ}
    (hn : g.nodes.get? n = some node) :
    ∃ k, (g.dropPort p).nodes.get? n = some { node with readyIn := k } := by
  obtain ⟨k, hk⟩ := exists_get?_nodes_detach p hn
  rw [dropPort_eq]
  rcases g.layout.link? p with _ | l
  · rw [takeApart_none, nodes_erasePort]
    exact ⟨k, hk⟩
  · rw [takeApart_some, nodes_erasePort, nodes_eraseSlot]
    obtain ⟨k', hk'⟩ := exists_get?_nodes_detach l.peer hk
    exact ⟨k', hk'⟩

/-- Some ports of a node are removed on the way from `g` to `g'`: the node does not list
them any more, and all else is as if they had gone without the node. -/
structure Sheds (g : Graph σ) (n : NodeId) (ports : List PortId) (g' : Graph σ) : Prop where
  node : ∀ {node}, g.nodes.get? n = some node → ∃ node', g'.nodes.get? n = some node' ∧
    node'.processor = node.processor ∧
    ∀ d, (node'.portsOf d).toList = (node.portsOf d).toList.filter (· ∉ ports)
  site : ∀ {q}, q ∉ ports → g'.layout.site? q = g.layout.site? q
  ready : g'.ready = g.ready
  rest : ∀ r, withoutNode n r g' = ports.foldl dropPort (withoutNode n r g)

lemma Sheds.refl (g : Graph σ) (n : NodeId) : g.Sheds n [] g where
  node hn := ⟨_, hn, rfl, by simp⟩
  site _ := rfl
  ready := rfl
  rest _ := rfl

/-- First one port goes, and then others. -/
lemma Sheds.cons {g₁ g₂ : Graph σ} {ports : List PortId} (h : g.Sheds n [p] g₁)
    (h' : g₁.Sheds n ports g₂) : g.Sheds n (p :: ports) g₂ where
  node hn := by
    obtain ⟨node₁, hn₁, hprocessor₁, hlists₁⟩ := h.node hn
    obtain ⟨node₂, hn₂, hprocessor₂, hlists₂⟩ := h'.node hn₁
    refine ⟨node₂, hn₂, hprocessor₂.trans hprocessor₁, fun d => ?_⟩
    rw [hlists₂, hlists₁, List.filter_filter]
    simp [Bool.and_comm]
  site hq := by
    rw [List.mem_cons, not_or] at hq
    rw [h'.site hq.2, h.site (by simpa using hq.1)]
  ready := h'.ready.trans h.ready
  rest r := by rw [h'.rest, h.rest]; rfl

/-- One port of a node is removed. -/
lemma exists_removePort (hn : (g.nodes.get? n).isSome = true) {d : Direction}
    (hp : g.layout.site? p = some (n, d)) :
    ∃ g', (Graph.removePort p).run g = (.ok (), g') ∧ g.Sheds n [p] g' := by
  obtain ⟨π, hπ, howner, -⟩ := Layout.site?_eq_some.mp hp
  obtain ⟨port, hport, rfl⟩ := Option.map_eq_some_iff.mp hπ
  obtain rfl : port.owner = n := howner
  set g' := (g.dropPort p).modifyNode port.owner (forgetPort p port.isRequired) with hg'
  refine ⟨g', removePort_eq hport hn, ?_, ?_, g.ready_dropPort p, fun r => ?_⟩
  · intro node hn
    obtain ⟨k, hk⟩ := exists_get?_nodes_dropPort p hn
    refine ⟨forgetPort p port.isRequired { node with readyIn := k }, ?_, rfl, fun d => ?_⟩
    · rw [hg', Graph.modifyNode, Arena.get?_modify_self, hk, Option.map_some]
    · cases d <;> simp [forgetPort, Node.portsOf]
  · intro q hq
    have hports : g'.layout.port = (g.dropPort p).layout.port := rfl
    rw [Layout.site?, hports, ← Layout.site?, layout_dropPort, Layout.site?_drop,
      if_neg (by simpa using hq)]
  · rw [List.foldl_cons, List.foldl_nil, ← withoutNode_dropPort]
    simp only [hg', withoutNode, Graph.modifyNode, Arena.erase_modify_self]

/-- The ports of a node are removed one after the other. -/
lemma exists_removePorts {ports : List PortId} (hnodup : ports.Nodup)
    (hn : (g.nodes.get? n).isSome = true)
    (hports : ∀ p ∈ ports, ∃ d, g.layout.site? p = some (n, d)) :
    ∃ g', (ports.forM Graph.removePort).run g = (.ok (), g') ∧ g.Sheds n ports g' := by
  induction ports generalizing g with
  | nil => exact ⟨g, rfl, .refl g n⟩
  | cons p ports ih =>
      obtain ⟨hp, hnodup⟩ := List.nodup_cons.mp hnodup
      obtain ⟨d, hd⟩ := hports p List.mem_cons_self
      obtain ⟨g₁, hrun₁, hsheds₁⟩ := exists_removePort hn hd
      have hn₁ : (g₁.nodes.get? n).isSome = true := by
        obtain ⟨node, hnode⟩ := Option.isSome_iff_exists.mp hn
        obtain ⟨node₁, hnode₁, -⟩ := hsheds₁.node hnode
        rw [hnode₁]
        rfl
      -- the other ports are still there
      have hports₁ : ∀ q ∈ ports, ∃ d, g₁.layout.site? q = some (n, d) := by
        intro q hq
        have hqp : q ≠ p := by
          rintro rfl
          exact hp hq
        rw [hsheds₁.site (by simpa using hqp)]
        exact hports q (List.mem_cons_of_mem p hq)
      obtain ⟨g', hrun, hsheds⟩ := ih hnodup hn₁ hports₁
      exact ⟨g', (Edit.run_bind_of_run hrun₁).trans hrun, hsheds₁.cons hsheds⟩

/-! ### Nothing is left -/

/-- A node of `g` and its ports are gone from `g'`: nobody owns, links or lists them, the
slots of their links are gone, and the queue and the driver do not name the node. -/
structure Purged (g : Graph σ) (n : NodeId) (g' : Graph σ) : Prop where
  node : g'.nodes.get? n = none
  place : g'.ready.links.get? n = none
  waiting : n ∉ g'.ready.toList
  driver : g'.driver ≠ some n
  owner : ∀ {p port}, g'.ports.get? p = some port → port.owner ≠ n
  port : ∀ {p port}, g.ports.get? p = some port → port.owner = n → g'.ports.get? p = none
  peer : ∀ {p port q}, g.ports.get? p = some port → port.owner = n → g'.peer? q ≠ some p
  listed : ∀ {p port m node d}, g.ports.get? p = some port → port.owner = n →
    g'.nodes.get? m = some node → p ∉ node.portsOf d
  slot : ∀ {p port s}, g.ports.get? p = some port → port.owner = n →
    port.slot? = some s → g'.slots.get? s = none

/-- No port of a node of a tidy graph is listed twice. -/
lemma Tidy.nodup_ports (h : g.Tidy) {node : Node σ} (hn : g.nodes.get? n = some node) :
    (node.inputs ++ node.outputs).toList.Nodup := by
  have hlists : ∀ d, g.layout.portsOf n d = (node.portsOf d).toList := h.shows.portsOf hn
  rw [Array.toList_append, List.nodup_append]
  refine ⟨hlists .input ▸ h.layout.nodup n .input, hlists .output ▸ h.layout.nodup n .output,
    fun p hp q hq he => ?_⟩
  subst he
  -- a port has one direction
  obtain ⟨port, hport, -, hd⟩ := h.layout.mem_portsOf.mp (hlists .input ▸ hp)
  obtain ⟨port', hport', -, hd'⟩ := h.layout.mem_portsOf.mp (hlists .output ▸ hq)
  obtain rfl := Option.some.inj (hport.symm.trans hport')
  exact absurd (hd.symm.trans hd') (by decide)

/-- Nothing of a node is left in a tidy graph after it was removed. -/
lemma Tidy.purged (h : g.Tidy) (hD : g.driver = none) {node : Node σ}
    (hn : g.nodes.get? n = some node) : g.Purged n ((Graph.removeNode n).run g).2 := by
  have h' := h.removeNode n
  have hrun := removeNode_eq hn
  set g' := ((Graph.removeNode n).run g).2 with hg'
  set ports := (node.inputs ++ node.outputs).toList
  set r := (g.ready.remove n).2.forget n
  have hbare : g' = ports.foldl dropPort (withoutNode n r g) := by rw [hg', hrun]
  have hlayout : g'.layout = ports.foldl Layout.drop (withoutNode n r g).layout := by
    rw [hbare, layout_foldl_dropPort]
  have hnode : g'.nodes.get? n = none := by
    have hlayout := congrFun (congrArg Layout.node hlayout) n
    rw [Layout.node_foldl_drop] at hlayout
    simpa [Graph.layout, withoutNode] using hlayout
  have hmem : ∀ {p port}, g.ports.get? p = some port → port.owner = n → p ∈ ports := by
    rintro p port hp rfl
    obtain ⟨node', hn', hcount⟩ := h.linked.listed hp
    obtain rfl := Option.some.inj (hn.symm.trans hn')
    refine (mem_ports_iff hn).mpr ⟨port.direction, ?_⟩
    rw [h.shows.portsOf hn]
    exact List.count_pos_iff.mp (by omega)
  have hport : ∀ {p port}, g.ports.get? p = some port → port.owner = n →
      g'.ports.get? p = none := by
    intro p port hp howner
    have hgone := Layout.port_foldl_drop (Λ := (withoutNode n r g).layout) (hmem hp howner)
    rw [← hlayout] at hgone
    simpa [Graph.layout] using hgone
  refine ⟨hnode, ?_, ?_, ?_, ?_, hport, ?_, ?_, ?_⟩
  · rw [hbare, ready_foldl_dropPort]
    exact Arena.get?_erase_self _ _
  · rw [h'.idle.toList_eq]
    exact List.not_mem_nil
  · rw [hbare, driver_foldl_dropPort]
    exact fun he => Option.some_ne_none n (he.symm.trans hD)
  · rintro p port hp rfl
    obtain ⟨owner, howner, -⟩ := h'.linked.listed hp
    rw [hnode] at howner
    cases howner
  · intro p port q hp howner hq
    obtain ⟨-, -, _, port', -, hp', -⟩ := h'.linked.peer hq
    rw [hport hp howner] at hp'
    cases hp'
  · intro p port m node' d hp howner hm hmem
    obtain ⟨port', hp', -⟩ := h'.linked.lists hm hmem
    rw [hport hp howner] at hp'
    cases hp'
  · intro p port s hp howner hs
    obtain ⟨l, hl, rfl⟩ := Option.map_eq_some_iff.mp hs
    have hlink : (withoutNode n r g).layout.link? p = some l :=
      Layout.link?_eq_some.mpr ⟨_, h.shows.port hp, hl⟩
    have hgone := (h.paired_withoutNode n r).slot_foldl_drop (hmem hp howner) hlink
    rw [← hlayout] at hgone
    simpa [Graph.layout] using hgone

/-- The ports of a node may be removed before it, one after the other and in any order. -/
lemma Tidy.removeNode_of_removePorts (h : g.Tidy) {node : Node σ}
    (hn : g.nodes.get? n = some node) {ports : List PortId}
    (hports : ports.Perm (node.inputs ++ node.outputs).toList) :
    (do ports.forM Graph.removePort; Graph.removeNode n : Edit σ σ).run g =
      (Graph.removeNode n).run g := by
  have hmem : ∀ p, p ∈ ports ↔ ∃ d, p ∈ g.layout.portsOf n d :=
    fun p => hports.mem_iff.trans (mem_ports_iff hn)
  obtain ⟨g', hrun, hsheds⟩ :=
    exists_removePorts (hports.nodup_iff.mpr (h.nodup_ports hn)) (by rw [hn]; rfl) fun p hp =>
      ((hmem p).mp hp).imp fun d hd => Layout.site?_eq_some.mpr (h.layout.mem_portsOf.mp hd)
  obtain ⟨node', hn', hprocessor, hlists⟩ := hsheds.node hn
  -- no port is left for the removal of the node
  have hnone : ∀ d, (node'.portsOf d).toList = [] := by
    intro d
    rw [hlists d, ← h.shows.portsOf hn, List.filter_eq_nil_iff]
    intro p hp
    simpa using (hmem p).mpr ⟨d, hp⟩
  have hbare : (node'.inputs ++ node'.outputs).toList = [] := by
    rw [Array.toList_append, show node'.inputs.toList = [] from hnone .input,
      show node'.outputs.toList = [] from hnone .output, List.nil_append]
  rw [Edit.run_bind_of_run hrun, removeNode_eq hn', removeNode_eq hn, hbare, hprocessor,
    hsheds.ready, List.foldl_nil, hsheds.rest,
    foldl_dropPort_perm (h.paired_withoutNode n _) hports]

end Graph

/-! ### Every graph of a client -/

namespace Action

variable [Processor σ]

/-- In every graph that actions make of the empty one, to remove a live node succeeds
and leaves nothing of the node. To remove its ports one after the other, in any order,
and then the node, succeeds as well and leaves the same graph. -/
theorem removeNode_eq_removePorts (actions : List (Action σ)) {n : NodeId} {node : Node σ}
    (hn : (graph actions).nodes.get? n = some node) {ports : List PortId}
    (hports : ports.Perm (node.inputs ++ node.outputs).toList) :
    ∃ g', (Graph.removeNode n).run (graph actions) = (.ok node.processor, g') ∧
      (do ports.forM Graph.removePort; Graph.removeNode n : Edit σ σ).run (graph actions) =
        (.ok node.processor, g') ∧
      (graph actions).Purged n g' := by
  have htidy := tidy_graph actions
  have hrun : (Graph.removeNode n).run (graph actions) =
      (.ok node.processor, ((Graph.removeNode n).run (graph actions)).2) :=
    Prod.ext (by rw [Graph.removeNode_eq hn]) rfl
  exact ⟨_, hrun, (htidy.removeNode_of_removePorts hn hports).trans hrun,
    htidy.purged (driver_graph actions) hn⟩

/-- A source whose two outputs are linked to the two inputs of a mixer, which has counted
both. -/
def doubled : List (Action (Adapter Empty)) :=
  [.addNode (.source (.ofBuffers 4)), .addNode (.mixer (.ofBuffers 4)),
    .addPort ⟨0⟩ .output {}, .addPort ⟨0⟩ .output {}, .addPort ⟨1⟩ .input {},
    .addPort ⟨1⟩ .input {}, .link ⟨0⟩ ⟨2⟩, .link ⟨1⟩ ⟨3⟩,
    .activate Graph.turnLimit .pull ⟨1⟩]

/-- The source is removed, its second output first or at once. -/
theorem removeNode_eq_removePorts_doubled :
    ((graph doubled).nodes.get? ⟨1⟩).map (·.readyIn) = some 2 ∧
    (graph doubled).nodes.get? ⟨0⟩ =
      some { outputs := #[⟨0⟩, ⟨1⟩], processor := .source (.ofBuffers 4) } ∧
    ∃ g', (Graph.removeNode ⟨0⟩).run (graph doubled) = (.ok (.source (.ofBuffers 4)), g') ∧
      (do [(⟨1⟩ : PortId), ⟨0⟩].forM Graph.removePort; Graph.removeNode ⟨0⟩).run
        (graph doubled) = (.ok (.source (.ofBuffers 4)), g') ∧
      (graph doubled).Purged ⟨0⟩ g' := by
  have hsource : (graph doubled).nodes.get? ⟨0⟩ =
      some { outputs := #[⟨0⟩, ⟨1⟩], processor := .source (.ofBuffers 4) } := by
    decide +kernel
  have hperm : [(⟨1⟩ : PortId), ⟨0⟩].Perm [⟨0⟩, ⟨1⟩] := .swap _ _ []
  exact ⟨by decide +kernel, hsource, removeNode_eq_removePorts doubled hsource hperm⟩

end Action

end MediaGraph

/-
The books of producers while their graph is rewired.

* `Graph.buffersOf`, `Graph.Ledger`: the buffers that the outputs of a node name, and
  the books of all producers;
* `Graph.loses`: the slot of the first output of a node goes with the buffer that it
  names;
* `Graph.Trims`, `Graph.Keeps`: what the edits that take links apart and those that put
  them together do to the outputs and the slots;
* `SparesBuffers.ledger`: every action that spares the buffers keeps the books, and what
  it loses is lost;
* `Action.losses`: how often this happened in a history;
* `Action.exhausted_iff_lost`: a pool is exhausted exactly if all its buffers were lost
  in this way.
-/
import MediaGraph.Proofs.Ledger.Calls
import MediaGraph.Proofs.Names
import MediaGraph.Proofs.Observation
import MediaGraph.Proofs.Quiescence

namespace MediaGraph

variable {σ : Type}

/-! ### Links of proper layouts -/

/-- Two outputs of a node are not linked to the same input. -/
lemma Layout.Proper.nodup_targets {Λ : Layout} (hΛ : Λ.Proper) (n : NodeId) :
    (Λ.network.targets n).Nodup := by
  rw [Network.targets, Layout.network_outputs, List.reduceOption, List.filterMap_map]
  refine (hΛ.nodup n .output).filterMap fun p q r hp hq => ?_
  exact Option.some.inj ((hΛ.peer?_symm hp).symm.trans (hΛ.peer?_symm hq))

namespace Graph

variable {g g' g'' : Graph σ} {n m : NodeId} {p q : PortId}

/-! ### Slots of outputs -/

lemma processor?_modifyNode (f : Node σ → Node σ)
    (hf : ∀ node, (f node).processor = node.processor) :
    (g.modifyNode n f).processor? = g.processor? := by
  funext m
  simp only [processor?, modifyNode, Arena.get?_modify]
  split
  · cases g.nodes.get? m <;> simp [hf]
  · rfl

lemma outputsOf_modifyNode (f : Node σ → Node σ)
    (hf : ∀ node, (f node).outputs = node.outputs) :
    (g.modifyNode n f).outputsOf = g.outputsOf := by
  funext m
  simp only [outputsOf, modifyNode, Arena.get?_modify]
  split
  · cases g.nodes.get? m <;> simp [hf]
  · rfl

/-- The buffers that the outputs of a node name. -/
def buffersOf (g : Graph σ) (n : NodeId) : List (Option BufferId) :=
  (g.outputsOf n).map fun p => (g.slotOf? p).bind (·.buffer)

/-- The first output of a node names a buffer in `g`, and its slot is gone in `g'`. -/
def loses (g g' : Graph σ) (n : NodeId) : Bool :=
  (g.outputsOf n).head?.any fun p =>
    (g.slotOf? p).any (·.buffer.isSome) && (g'.slotOf? p).isNone

/-- Nothing is lost if all slots stay. -/
lemma loses_of_isSome (h : ∀ p ∈ g.outputsOf n, (g.slotOf? p).isSome = true →
    (g'.slotOf? p).isSome = true) : g.loses g' n = false := by
  rw [loses]
  rcases ho : g.outputsOf n with _ | ⟨p, rest⟩
  · rfl
  · have hp := h p (by simp [ho])
    rw [List.head?_cons, Option.any_some]
    cases hc : g.slotOf? p with
    | none => rfl
    | some c =>
        obtain ⟨c', hc'⟩ := Option.isSome_iff_exists.mp (hp (by rw [hc]; rfl))
        simp [hc']

/-- A dead node loses nothing. -/
lemma loses_of_dead (hn : g.nodes.get? n = none) : g.loses g' n = false := by
  simp [loses, outputsOf, hn]

/-! ### Taking links apart -/

/-- Slots, outputs and nodes go on the way from `g` to `g'`, and an output that goes
from a node goes with its slot. -/
structure Trims (g g' : Graph σ) : Prop where
  processor : ∀ {n x}, g'.processor? n = some x → g.processor? n = some x
  outputs : ∀ {n x}, g'.processor? n = some x →
    (g'.outputsOf n).Sublist (g.outputsOf n)
  slot : ∀ p, g'.slotOf? p = g.slotOf? p ∨ g'.slotOf? p = none
  gone : ∀ {n x p}, g'.processor? n = some x → p ∈ g.outputsOf n →
    p ∉ g'.outputsOf n → g'.slotOf? p = none

namespace Trims

lemma refl (g : Graph σ) : g.Trims g where
  processor := id
  outputs _ := List.Sublist.refl _
  slot _ := Or.inl rfl
  gone _ hp hp' := absurd hp hp'

lemma trans (h : g.Trims g') (h' : g'.Trims g'') : g.Trims g'' where
  processor hx := h.processor (h'.processor hx)
  outputs hx := (h'.outputs hx).trans (h.outputs (h'.processor hx))
  slot p := by
    rcases h'.slot p with he | he
    · rw [he]
      exact h.slot p
    · exact Or.inr he
  gone {n x p} hx hp hp'' := by
    by_cases hp' : p ∈ g'.outputsOf n
    · exact h'.gone hx hp' hp''
    · rcases h'.slot p with he | he
      · rw [he]
        exact h.gone (h'.processor hx) hp hp'
      · exact he

/-- Only slots go. -/
lemma of_slots (hp : g'.processor? = g.processor?) (ho : g'.outputsOf = g.outputsOf)
    (hs : ∀ p, g'.slotOf? p = g.slotOf? p ∨ g'.slotOf? p = none) : g.Trims g' where
  processor hx := by rwa [hp] at hx
  outputs _ := by rw [ho]
  slot := hs
  gone _ hp hp' := absurd hp (by rwa [ho] at hp')

/-- A node changes, with the same processor and the same outputs. -/
lemma modifyNode (f : Node σ → Node σ)
    (hf : ∀ node, (f node).processor = node.processor ∧ (f node).outputs = node.outputs) :
    g.Trims (g.modifyNode n f) :=
  of_slots (processor?_modifyNode f fun node => (hf node).1)
    (outputsOf_modifyNode f fun node => (hf node).2) fun _ => Or.inl rfl

/-- A port is freed. -/
lemma detach (g : Graph σ) (p : PortId) : g.Trims (g.detach p) := by
  unfold Graph.detach
  split
  · exact refl g
  · have hfree : g.Trims (g.modifyPort p ({ · with link := none, counted := false })) := by
      refine of_slots rfl rfl fun q => ?_
      simp only [slotOf?, slotId?, Graph.modifyPort, Arena.get?_modify]
      split
      · refine Or.inr ?_
        cases g.ports.get? q <;> rfl
      · exact Or.inl rfl
    simp only
    split
    · exact hfree.trans (modifyNode _ fun _ => ⟨rfl, rfl⟩)
    · exact hfree

/-- A link is broken. -/
lemma breakLink (g : Graph σ) (p : PortId) : g.Trims (g.breakLink p) := by
  unfold Graph.breakLink
  split
  · exact detach g p
  · rename_i l _
    refine ((detach g p).trans (detach _ l.peer)).trans (of_slots rfl rfl fun q => ?_)
    simp only [slotOf?, slotId?]
    generalize (((g.detach p).detach l.peer).ports.get? q).bind (·.slot?) = s
    rcases s with _ | s
    · simp only [Option.bind_none, true_or]
    · simp only [Option.bind_some, Arena.get?_erase]
      split
      · exact Or.inr rfl
      · exact Or.inl rfl

/-- A port goes with its link. -/
lemma dropPort (g : Graph σ) (p : PortId) : g.Trims (g.dropPort p) := by
  refine (breakLink g p).trans (of_slots rfl rfl fun q => ?_)
  simp only [slotOf?, slotId?, Graph.dropPort, Arena.get?_erase]
  split
  · exact Or.inr rfl
  · exact Or.inl rfl

lemma foldl_dropPort (ports : List PortId) (g : Graph σ) :
    g.Trims (ports.foldl Graph.dropPort g) := by
  induction ports generalizing g with
  | nil => exact refl g
  | cons p ports ih => exact (dropPort g p).trans (ih _)

lemma unlink (g : Graph σ) (p q : PortId) : g.Trims ((Graph.unlink p q).run g).2 := by
  simp only [Graph.unlink, ExceptT.run]
  repeat' split
  all_goals first
    | exact refl g
    | exact breakLink g p

lemma removePort (g : Graph σ) (p : PortId) : g.Trims ((Graph.removePort p).run g).2 := by
  simp only [Graph.removePort, ExceptT.run]
  split
  · exact refl g
  · split
    · exact dropPort g p
    · refine (dropPort g p).trans ?_
      -- the owner does not list the port any more
      have hnone : (g.dropPort p).slotOf? p = none := by
        simp [slotOf?, slotId?, Graph.dropPort]
      generalize g.dropPort p = g₁ at hnone ⊢
      refine ⟨fun {m x} hx => ?_, fun {m x} _ => ?_, fun _ => Or.inl rfl,
        fun {m x q} _ hq hq' => ?_⟩
      · simp only [processor?, Graph.modifyNode, Arena.get?_modify] at hx ⊢
        split at hx
        · rwa [Option.map_map] at hx
        · exact hx
      · simp only [outputsOf, Graph.modifyNode, Arena.get?_modify]
        split
        · cases g₁.nodes.get? m <;> simp
        · exact List.Sublist.refl _
      · obtain rfl : q = p := by
          by_contra hne
          refine hq' ?_
          simp only [outputsOf, Graph.modifyNode, Arena.get?_modify] at hq ⊢
          split
          · cases hm : g₁.nodes.get? m with
            | none => simp [hm] at hq
            | some node => simpa [hm, hne] using hq
          · exact hq
        exact hnone

lemma removeNode (g : Graph σ) (n : NodeId) : g.Trims ((Graph.removeNode n).run g).2 := by
  simp only [Graph.removeNode, ExceptT.run]
  split
  · exact refl g
  · rename_i node _
    simp only [← Array.foldl_toList]
    have hqueue : g.Trims { g with ready := (g.ready.remove n).2 } :=
      of_slots rfl rfl fun _ => Or.inl rfl
    refine (hqueue.trans (foldl_dropPort (node.inputs ++ node.outputs).toList _)).trans ?_
    generalize List.foldl Graph.dropPort _ _ = bare
    have hsame : ∀ {m x}, ({ bare with
          nodes := bare.nodes.erase n, ready := bare.ready.forget n } :
          Graph σ).processor? m = some x →
        (bare.nodes.erase n).get? m = bare.nodes.get? m := by
      intro m x hx
      simp only [processor?, Arena.get?_erase] at hx ⊢
      split at hx
      · cases hx
      · rename_i hne
        rw [if_neg hne]
    refine ⟨fun hx => ?_, fun hx => ?_, fun _ => Or.inl rfl, fun hx hp hp' => ?_⟩
    · have := hsame hx
      rwa [processor?, this] at hx
    · rw [outputsOf, outputsOf, hsame hx]
    · refine absurd hp ?_
      rwa [outputsOf, hsame hx] at hp'

end Trims

/-! ### Putting links together -/

/-- Slots that name nothing and outputs without slots come on the way from `g` to `g'`,
and nothing else does. -/
structure Keeps (g g' : Graph σ) : Prop where
  processor : g'.processor? = g.processor?
  outputs : ∀ n, g'.outputsOf n = g.outputsOf n ∨
    ∃ p, g'.outputsOf n = g.outputsOf n ++ [p] ∧ g'.slotOf? p = none
  slot : ∀ p, g'.slotOf? p = g.slotOf? p ∨ g.slotOf? p = none ∧ g'.slotOf? p = some {}

namespace Keeps

lemma refl (g : Graph σ) : g.Keeps g := ⟨rfl, fun _ => Or.inl rfl, fun _ => Or.inl rfl⟩

lemma loses (h : g.Keeps g') (n : NodeId) : g.loses g' n = false := by
  refine loses_of_isSome fun p _ hp => ?_
  rcases h.slot p with he | ⟨he, -⟩
  · rwa [he]
  · rw [he] at hp
    cases hp

/-- The outputs name what they named, and further ones name nothing. -/
lemma buffersOf (h : g.Keeps g') (n : NodeId) :
    g'.buffersOf n = g.buffersOf n ∨ g'.buffersOf n = g.buffersOf n ++ [none] := by
  have hname : (fun p => (g'.slotOf? p).bind (·.buffer)) =
      fun p => (g.slotOf? p).bind (·.buffer) := by
    funext p
    rcases h.slot p with he | ⟨he, he'⟩
    · rw [he]
    · rw [he, he']
      rfl
  rcases h.outputs n with ho | ⟨p, ho, hp⟩
  · exact Or.inl (by rw [Graph.buffersOf, ho, hname, Graph.buffersOf])
  · refine Or.inr ?_
    have hnone := congrFun hname p
    simp only [hp, Option.bind_none] at hnone
    rw [Graph.buffersOf, ho, hname, List.map_append, List.map_singleton, ← hnone,
      Graph.buffersOf]

/-- A node changes, with the same processor and the same outputs. -/
lemma modifyNode (f : Node σ → Node σ)
    (hf : ∀ node, (f node).processor = node.processor ∧ (f node).outputs = node.outputs) :
    g.Keeps (g.modifyNode n f) where
  processor := processor?_modifyNode f fun node => (hf node).1
  outputs m := Or.inl (congrFun (outputsOf_modifyNode f fun node => (hf node).2) m)
  slot _ := Or.inl rfl

/-- The slot of a fresh port is none, before and afterwards. -/
lemma addPort (g : Graph σ) (n : NodeId) (d : Direction) (flags : PortFlags) :
    g.Keeps ((Graph.addPort n d flags).run g).2 := by
  simp only [Graph.addPort, ExceptT.run]
  rcases hn : g.nodes.get? n with _ | node
  · exact refl g
  · simp only
    set port : Port := { direction := d, owner := n, flags } with hport
    split
    · exact refl g
    · have hslot : ∀ q, ({ g with ports := g.ports.insert port } : Graph σ).slotOf? q =
          g.slotOf? q := by
        intro q
        simp only [slotOf?, slotId?, Arena.get?_insert]
        split
        · subst_vars
          rw [get?_fresh]
          rfl
        · rfl
      refine ⟨processor?_modifyNode _ fun _ => rfl, fun m => ?_, fun q => Or.inl (hslot q)⟩
      · simp only [outputsOf, Graph.modifyNode, Arena.get?_modify]
        split
        · subst_vars
          cases d with
          | input => exact Or.inl (by simp [hn])
          | output =>
              refine Or.inr ⟨g.ports.fresh, by simp [hn], (hslot _).trans ?_⟩
              simp [slotOf?, slotId?, get?_fresh]
        · exact Or.inl rfl

/-- The slot of a new link names nothing. -/
lemma link (g : Graph σ) (p q : PortId) : g.Keeps ((Graph.link p q).run g).2 := by
  simp only [Graph.link, ExceptT.run]
  rcases hp : g.ports.get? p with _ | out
  · exact refl g
  · rcases hq : g.ports.get? q with _ | inp
    · exact refl g
    · simp only
      repeat' split
      all_goals try exact refl g
      rename_i hout hinp _
      rw [Option.not_isSome_iff_eq_none] at hout hinp
      refine ⟨rfl, fun _ => Or.inl rfl, fun r => ?_⟩
      simp only [slotOf?, slotId?, Graph.modifyPort, Arena.get?_modify]
      rcases eq_or_ne q r with rfl | hqr
      · refine Or.inr ⟨by simp [hq, Port.slot?, hinp], ?_⟩
        by_cases hpq : p = q <;> simp [hpq, hq, Port.slot?, Arena.get?_insert]
      · rcases eq_or_ne p r with rfl | hpr
        · refine Or.inr ⟨by simp [hp, Port.slot?, hout], ?_⟩
          simp [hqr, hp, Port.slot?, Arena.get?_insert]
        · simp only [hqr, hpr, if_false]
          rcases (g.ports.get? r).bind (·.slot?) with _ | s
          · exact Or.inl rfl
          · simp only [Option.bind_some, Arena.get?_insert]
            split
            · subst_vars
              exact Or.inr ⟨get?_fresh _, rfl⟩
            · exact Or.inl rfl

end Keeps

/-! ### The books of all producers -/

/-- The books of all producers: how many buffers of each of them are lost. -/
structure Ledger (g : Graph (Adapter Empty)) (lost : NodeId → Nat) : Prop where
  covers : ∀ {n x pool}, g.processor? n = some x → x.pool? = some pool →
    pool.Covers (g.buffersOf n) (lost n)
  named : ∀ {p c}, g.slotOf? p = some c → c.Named

lemma Shows.names_eq {Λ : Layout} {D : Option NodeId} {s : Flow σ} (hΛ : Λ.Proper)
    (h : g.Shows Λ D s) (n : NodeId) : Λ.network.names n s = g.buffersOf n := by
  rw [Network.names, Layout.network_outputs, List.map_map, buffersOf, h.outputsOf_eq]
  refine List.map_congr_left fun p hp => ?_
  rw [h.slotOf?_output hΛ hp, Function.comp_apply]
  cases Λ.peer? p <;> rfl

/-- The slot of a port is that of an input which some node feeds. -/
lemma Shows.exists_slot {Λ : Layout} {D : Option NodeId} {s : Flow σ} (hΛ : Λ.Proper)
    (h : g.Shows Λ D s) {c : Slot} (hc : g.slotOf? p = some c) :
    ∃ q m, q ∈ Λ.network.targets m ∧ s.slot q = c := by
  obtain ⟨port, hport⟩ : ∃ port, g.ports.get? p = some port := by
    simp only [slotOf?, slotId?, Option.bind_eq_some_iff] at hc
    obtain ⟨_, ⟨port, hport, -⟩, -⟩ := hc
    exact ⟨port, hport⟩
  have hmem := hΛ.mem_portsOf.mpr ⟨_, h.port hport, rfl, rfl⟩
  cases hd : port.layout.direction with
  | input =>
      rw [hd] at hmem
      rw [h.slotOf?_input hΛ hmem, Network.linked?] at hc
      split at hc
      · rename_i hfeeder
        obtain ⟨m, hm⟩ := Option.isSome_iff_exists.mp hfeeder
        exact ⟨p, m, (hΛ.feeder_iff hmem).mp hm, Option.some.inj hc⟩
      · cases hc
  | output =>
      rw [hd] at hmem
      rw [h.slotOf?_output hΛ hmem] at hc
      obtain ⟨q, hq, hslot⟩ := Option.map_eq_some_iff.mp hc
      exact ⟨q, _, Layout.mem_targets.mpr ⟨p, hmem, hq⟩, hslot⟩

namespace Ledger

variable {g g' : Graph (Adapter Empty)} {lost : NodeId → Nat} {Λ : Layout}
  {D : Option NodeId} {s : Flow (Adapter Empty)}

/-- The books of a graph are those of its flow. -/
lemma network (h : g.Ledger lost) (hΛ : Λ.Proper) (hs : g.Shows Λ D s) :
    Λ.network.Ledger (fun n => ((g.processor? n).bind (·.pool?)).map (·.size)) lost s where
  covers {n x pool} hx hpool := by
    rw [← hs.processor?_eq] at hx
    rw [hs.names_eq hΛ]
    exact h.covers hx hpool
  size n := by rw [hs.processor?_eq]
  named p := by
    rw [← hs.flow]
    simp only [flow]
    rcases hc : g.inputSlot? p with _ | c
    · exact fun hdata => absurd hdata (by decide)
    · refine h.named (p := p) ?_
      simp only [inputSlot?, Option.bind_eq_some_iff] at hc
      obtain ⟨port, hport, hc⟩ := hc
      split at hc
      · simpa [slotOf?, slotId?, hport] using hc
      · cases hc

lemma of_network {size : NodeId → Option Nat} (h : Λ.network.Ledger size lost s)
    (hΛ : Λ.Proper) (hs : g.Shows Λ D s) : g.Ledger lost where
  covers {n x pool} hx hpool := by
    rw [hs.processor?_eq] at hx
    rw [← hs.names_eq hΛ]
    exact h.covers hx hpool
  named hc := by
    obtain ⟨q, -, -, rfl⟩ := hs.exists_slot hΛ hc
    exact h.named q

lemma empty : (Graph.empty : Graph (Adapter Empty)).Ledger fun _ => 0 where
  covers hx := by simp [processor?, Graph.empty] at hx
  named hc := by simp [slotOf?, slotId?, Graph.empty] at hc

/-- What goes with a slot is lost. -/
lemma trim (h : g.Ledger lost) (ht : g.Tidy) (hg : g.Trims g') :
    g'.Ledger fun n => lost n + if g.loses g' n then 1 else 0 where
  covers {n x pool} hx hpool := by
    refine (h.covers (hg.processor hx) hpool).trim ?_ (hg.outputs hx) hg.slot
      fun q hq hq' => hg.gone hx hq hq'
    rw [ht.shows.outputsOf_eq]
    exact ht.layout.nodup n .output
  named {p c} hc := by
    rcases hg.slot p with he | he
    · exact h.named (he.symm.trans hc)
    · rw [he] at hc
      cases hc

/-- Nothing is lost if all slots stay. -/
lemma stay (h : g'.Ledger lost) (hg : ∀ n, g.loses g' n = false) :
    g'.Ledger fun n => lost n + if g.loses g' n then 1 else 0 := by
  simpa only [hg, Bool.false_eq_true, if_false, Nat.add_zero] using h

lemma keep (h : g.Ledger lost) (hg : g.Keeps g') :
    g'.Ledger fun n => lost n + if g.loses g' n then 1 else 0 := by
  refine stay ⟨fun {n x pool} hx hpool => ?_, fun {p c} hc => ?_⟩ hg.loses
  · rw [hg.processor] at hx
    rcases hg.buffersOf n with hb | hb <;> rw [hb]
    · exact h.covers hx hpool
    · exact (h.covers hx hpool).append_none
  · rcases hg.slot p with he | ⟨-, he⟩
    · exact h.named (he.symm.trans hc)
    · obtain rfl := Option.some.inj (he.symm.trans hc)
      exact fun hdata => absurd hdata (by decide)

/-- A new node has no outputs, and its pool is whole. -/
lemma addNode {x : Adapter Empty} (h : g.Ledger lost)
    (hx : ∀ pool, x.pool? = some pool → pool.Whole) (hlost : lost g.nodes.fresh = 0) :
    ((Graph.addNode x).run g).2.Ledger fun n => lost n +
      if g.loses ((Graph.addNode x).run g).2 n then 1 else 0 := by
  have hget : ∀ n, ((Graph.addNode x).run g).2.nodes.get? n =
      if n = g.nodes.fresh then some { processor := x } else g.nodes.get? n :=
    fun n => Arena.get?_insert _ _ _
  refine stay ⟨fun {n y pool} hy hpool => ?_, fun hc => h.named hc⟩
    fun n => loses_of_isSome fun _ _ => id
  rw [processor?, hget] at hy
  split at hy
  · rename_i hn
    obtain rfl := Option.some.inj hy
    have hnil : ((Graph.addNode x).run g).2.buffersOf n = [] := by
      simp [buffersOf, outputsOf, hget, hn]
    rw [hnil, hn, hlost]
    exact (hx pool hpool).covers
  · rename_i hn
    have hsame : ((Graph.addNode x).run g).2.buffersOf n = g.buffersOf n := by
      simp only [buffersOf, outputsOf, hget, if_neg hn]
      rfl
    rw [hsame]
    exact h.covers hy hpool

/-- An activation takes no slot away, and every turn keeps the books. -/
lemma activate (h : g.Ledger lost) (ht : g.Tidy) (budget : Nat) (mode : Mode) (m : NodeId) :
    (g.activate budget mode m).graph.Ledger fun n => lost n +
      if g.loses (g.activate budget mode m).graph n then 1 else 0 := by
  rcases hm : g.nodes.get? m with _ | node
  · have hsame : (g.activate budget mode m).graph = g := by
      simp only [Graph.activate, hm]
    rw [hsame]
    exact h.keep (.refl g)
  · obtain ⟨t, hends, hshows⟩ :=
      ht.shows.activate ht.layout (ht.shows.node hm) budget mode
    have hstart := (h.network ht.layout ht.shows).congr
      (t := g.flow.start mode m) rfl rfl
    have hafter := (hends.invariant hstart fun u n _ hu =>
      hu.serve ht.layout.network ht.layout.nodup_targets (some m) n).congr
        (t := t.clear) rfl rfl
    refine stay (of_network hafter ht.layout hshows)
      fun n => loses_of_isSome fun p hp hsome => ?_
    rw [ht.shows.outputsOf_eq] at hp
    rw [ht.shows.slotOf?_output ht.layout hp, Option.isSome_map] at hsome
    rw [hshows.slotOf?_output ht.layout hp, Option.isSome_map, hsome]

end Ledger

end Graph

/-! ### Histories -/

namespace Action

/-- An action that touches buffers only as the scheduler and the adapters do: no slot is
written and no buffer is handed back from outside, and the pool of a new node is
whole. -/
def SparesBuffers : Action (Adapter Empty) → Prop
  | addNode x => ∀ pool, x.pool? = some pool → pool.Whole
  | reuseBuffer _ _ => False
  | writeSlot _ _ => False
  | _ => True

/-- Every action that spares the buffers keeps the books, and what it loses is lost. -/
theorem SparesBuffers.ledger {a : Action (Adapter Empty)} (ha : a.SparesBuffers)
    {g : Graph (Adapter Empty)} {lost : NodeId → Nat} (h : g.Ledger lost) (ht : g.Tidy)
    (hlost : lost g.nodes.fresh = 0) : (a.perform g).2.Ledger fun n => lost n +
      if g.loses (a.perform g).2 n then 1 else 0 := by
  cases a with
  | addNode x =>
      rw [perform, snd_issue]
      exact h.addNode ha hlost
  | removeNode n => exact h.trim ht (.removeNode g n)
  | addPort n d flags =>
      rw [perform, snd_issue]
      exact h.keep (.addPort g n d flags)
  | removePort p => exact h.trim ht (.removePort g p)
  | link p q =>
      rw [perform, snd_issue]
      exact h.keep (.link g p q)
  | unlink p q => exact h.trim ht (.unlink g p q)
  | setRequiredIn n required =>
      refine h.keep ?_
      simp only [perform, Graph.setRequiredIn, ExceptT.run]
      split
      · exact .refl g
      · exact .modifyNode _ fun _ => ⟨rfl, rfl⟩
  | setFlags n flags =>
      refine h.keep ?_
      simp only [perform, Graph.setFlags, ExceptT.run]
      split
      · exact .refl g
      · exact .modifyNode _ fun _ => ⟨rfl, rfl⟩
  | reuseBuffer p b => exact ha.elim
  | writeSlot p c => exact ha.elim
  | activate budget mode n => exact h.activate ht budget mode n

section Losses

variable [Processor σ] {actions : List (Action σ)} {n : NodeId}

/-- How many of the actions took away the slot of the first output of a node while it
named a buffer. -/
def losses (actions : List (Action σ)) (n : NodeId) : Nat :=
  (List.range actions.length).countP fun i =>
    (graph (actions.take i)).loses (graph (actions.take (i + 1))) n

lemma losses_concat (actions : List (Action σ)) (a : Action σ) (n : NodeId) :
    losses (actions ++ [a]) n = losses actions n +
      if (graph actions).loses (graph (actions ++ [a])) n then 1 else 0 := by
  rw [losses, List.length_append, List.length_singleton, List.range_succ,
    List.countP_append, List.countP_singleton]
  congr 1
  · refine List.countP_congr fun i hi => ?_
    have hlt := List.mem_range.mp hi
    rw [List.take_append_of_le_length (by omega), List.take_append_of_le_length (by omega)]
  · rw [List.take_left', List.take_of_length_le (by simp)]
    rfl

/-- Nothing was lost of a node that was never created. -/
lemma losses_of_size_le (h : (graph actions).nodes.size ≤ n.index) : losses actions n = 0 := by
  induction actions using List.reverseRecOn with
  | nil => rfl
  | append_singleton actions a ih =>
      rw [graph_concat] at h
      have hle : (graph actions).nodes.size ≤ n.index :=
        (a.created_le (graph actions) .node).trans h
      rw [losses_concat, ih hle, Graph.loses_of_dead (Arena.get?_of_size_le hle)]
      rfl

end Losses

variable {actions : List (Action (Adapter Empty))}

/-- The books of a history of such actions. -/
theorem ledger_graph (h : ∀ a ∈ actions, a.SparesBuffers) :
    (graph actions).Ledger (losses actions) := by
  induction actions using List.reverseRecOn with
  | nil => exact Graph.Ledger.empty
  | append_singleton actions a ih =>
      have hledger := (h a (by simp)).ledger (ih fun b hb => h b (by simp [hb]))
        (tidy_graph actions) (losses_of_size_le (Nat.le_refl _))
      rw [← graph_concat] at hledger
      simpa only [← losses_concat] using hledger

/-! ### Exhausted pools -/

/-- A producer whose pool is exhausted in a call lost all its buffers before. -/
lemma losses_of_exhausted (h : ∀ a ∈ actions, a.SparesBuffers) {budget : Nat} {mode : Mode}
    {m n : NodeId} {side : Side}
    (hc : ⟨n, side, .error (.failed "buffer pool exhausted")⟩ ∈
      ((graph actions).activate budget mode m).callbacks) :
    ∃ x pool, (graph actions).processor? n = some x ∧ x.pool? = some pool ∧
      losses actions n = pool.size := by
  have ht := tidy_graph actions
  have hledger := ledger_graph h
  generalize graph actions = g at ht hledger hc ⊢
  rcases hm : g.nodes.get? m with _ | node
  · simp only [Graph.activate, hm] at hc
    cases hc
  · have hstart := (hledger.network ht.layout ht.shows).congr
      (t := g.flow.start mode m) rfl rfl
    obtain ⟨u, turn, hu, hturn, hcall⟩ := Graph.exists_turn_of_mem_activate hc
    obtain ⟨s, hs, hbooks⟩ := hu.invariant ht.layout
      (ht.shows.start ht.layout (ht.shows.node hm) mode) hstart fun u n _ hu =>
        hu.serve ht.layout.network ht.layout.nodup_targets (some m) n
    obtain ⟨k, -, hturned⟩ := hs.turn? ht.layout hturn
    have hsize := hbooks.exhausted ht.layout.network (hturned.callback.symm.trans hcall) rfl
    obtain ⟨pool, hpool, hlost⟩ := Option.map_eq_some_iff.mp hsize
    obtain ⟨x, hx, hpool⟩ := Option.bind_eq_some_iff.mp hpool
    exact ⟨x, pool, hx, hpool, hlost.symm⟩

/-- A push of a linked source that lost all its buffers finds the pool exhausted. -/
lemma exhausted_of_losses (h : ∀ a ∈ actions, a.SparesBuffers) {n : NodeId} {s : Source}
    {p : PortId} {budget : Nat} (hx : (graph actions).processor? n = some (.source s))
    (hp : ((graph actions).outputsOf n).head? = some p)
    (hslot : ((graph actions).slotOf? p).isSome = true) (hbudget : 0 < budget)
    (hlost : losses actions n = s.pool.size) :
    ((graph actions).activate budget .push n).result =
      .error (.processFailed n (.failed "buffer pool exhausted")) := by
  have ht := tidy_graph actions
  have hledger := ledger_graph h
  generalize graph actions = g at ht hledger hx hp hslot ⊢
  obtain ⟨node, hn, -⟩ := Option.map_eq_some_iff.mp hx
  have hbooks := (hledger.network ht.layout ht.shows).congr
    (t := ((g.flow.start .push n).dequeue n).countTurn) rfl rfl
  have hprocessor : ((g.flow.start .push n).dequeue n).countTurn.processor n =
      some (.source s) := hx
  have hphase : ((g.flow.start .push n).dequeue n).countTurn.phase n = .output := by
    simp [Flow.start, Flow.enqueue, Flow.setPhase, Flow.dequeue, Flow.countTurn, Mode.phase]
  refine ht.activate_of_failure hn hbudget ?_
  rw [Network.serve, show (g.flow.start .push n).processor n = some (.source s) from hx]
  simp only [Network.serveNode, hphase]
  generalize ((g.flow.start .push n).dequeue n).countTurn = t at hbooks hprocessor
  -- what the source sees of its first output
  obtain ⟨rest, hrest⟩ := List.head?_eq_some_iff.mp hp
  rw [ht.shows.outputsOf_eq] at hrest
  rw [ht.shows.slotOf?_output ht.layout (by rw [hrest]; exact List.mem_cons_self),
    Option.isSome_map] at hslot
  obtain ⟨q, hq⟩ := Option.isSome_iff_exists.mp hslot
  have hview : (g.layout.network.view n t).outputs = some (t.slot q) ::
      (rest.map g.layout.peer?).map (Option.map t.slot) := by
    rw [Network.view, Layout.network_outputs, hrest, List.map_cons, hq]
    rfl
  have hcovers := hbooks.covers hprocessor rfl
  rw [← Network.names_view] at hcovers
  have hcall := Adapter.exhausted_of_lost hview (hbooks.named_view n) hcovers hlost
  rw [← Network.result_call] at hcall
  generalize g.layout.network.call n (.source s) .output t = r at hcall
  rcases r with ⟨r, u⟩
  cases hcall
  rfl

/-- In a history of such actions the free buffers of a producer, the one that its first
output names, and those that were lost with the slot of that output make up its pool. A
call finds the pool exhausted only if all buffers were lost so, and then every push of a
linked source does. -/
theorem exhausted_iff_lost (h : ∀ a ∈ actions, a.SparesBuffers) (n : NodeId) :
    (∀ x pool, (graph actions).processor? n = some x → x.pool? = some pool →
      pool.available +
        (if ((graph actions).buffersOf n).head?.join.isSome then 1 else 0) +
        losses actions n = pool.size) ∧
    (∀ budget mode m side, ⟨n, side, .error (.failed "buffer pool exhausted")⟩ ∈
        ((graph actions).activate budget mode m).callbacks →
      ∃ x pool, (graph actions).processor? n = some x ∧ x.pool? = some pool ∧
        losses actions n = pool.size) ∧
    ∀ s p budget, (graph actions).processor? n = some (.source s) →
      ((graph actions).outputsOf n).head? = some p →
      ((graph actions).slotOf? p).isSome = true → 0 < budget →
      (((graph actions).activate budget .push n).result =
          .error (.processFailed n (.failed "buffer pool exhausted")) ↔
        losses actions n = s.pool.size) := by
  refine ⟨fun x pool hx hpool => ((ledger_graph h).covers hx hpool).balance,
    fun _ _ _ _ => losses_of_exhausted h, fun s p budget hx hp hslot hbudget =>
      ⟨fun hresult => ?_, exhausted_of_losses h hx hp hslot hbudget⟩⟩
  -- the last call of an activation that fails so is one of the node
  cases (tallied_graph actions).aborts (tidy_graph actions) hresult with
  | @called pre t turn m side cause _ _ _ hlast =>
      obtain ⟨x, pool, hx', hpool, hlost⟩ :=
        losses_of_exhausted h (List.mem_of_getLast? hlast)
      obtain rfl := Option.some.inj (hx.symm.trans hx')
      obtain rfl := Option.some.inj hpool
      exact hlost

/-- A source with a single buffer whose link to a sink is broken and made again after the
buffer was sent. -/
def relinked : List (Action (Adapter Empty)) :=
  [.addNode (.source (.ofBuffers 1)), .addNode (.sink {}), .addPort ⟨0⟩ .output {},
    .addPort ⟨1⟩ .input {}, .link ⟨0⟩ ⟨1⟩, .activate Graph.turnLimit .push ⟨0⟩,
    .unlink ⟨0⟩ ⟨1⟩, .link ⟨0⟩ ⟨1⟩]

lemma sparesBuffers_relinked : ∀ a ∈ relinked, a.SparesBuffers := by
  simp only [relinked, List.forall_mem_cons, SparesBuffers, Adapter.pool?]
  refine ⟨?_, ?_, ?_⟩
  · rintro pool ⟨⟩
    exact ⟨1, rfl⟩
  · rintro pool ⟨⟩
  · simp

/-- Its only buffer is lost with the link, so that a push of it finds the pool
exhausted. -/
theorem exhausted_relinked :
    (∀ a ∈ relinked, a.SparesBuffers) ∧ losses relinked ⟨0⟩ = 1 ∧
    ((graph relinked).activate 8 .push ⟨0⟩).result =
      .error (.processFailed ⟨0⟩ (.failed "buffer pool exhausted")) := by
  have hlost : losses relinked ⟨0⟩ = 1 := by decide +kernel
  exact ⟨sparesBuffers_relinked, hlost,
    ((exhausted_iff_lost sparesBuffers_relinked ⟨0⟩).2.2 ⟨⟨1, 0⟩, 1⟩ ⟨0⟩ 8 (by decide +kernel)
      (by decide +kernel) (by decide +kernel) (by decide)).mpr hlost⟩

/-- Every node has at most one output, every pool has a buffer to begin with, and nothing
is done but building the graph, a push, and breaking and making a link. Yet a push finds
the pool exhausted. -/
theorem leak_relinked :
    (∀ a ∈ relinked, a.SparesBuffers) ∧
    (∀ i < 2, ((graph relinked).outputsOf ⟨i⟩).length ≤ 1) ∧
    ((graph relinked).push ⟨0⟩).result =
      .error (.processFailed ⟨0⟩ (.failed "buffer pool exhausted")) :=
  ⟨sparesBuffers_relinked, by decide +kernel, by decide +kernel⟩

end Action

end MediaGraph

/-
A link that is made and broken again leaves the graph as it was.

* `Arena.get?_erase_insert`, `values_erase_insert`: an entry that is created and goes
  leaves the entries as they were, and its name is used up;
* `Graph.setLink`, `detach_setLink`: a port gets a link, which does not matter any more
  once the port is freed;
* `Tallied.detach_eq_self`: a port without a link is not marked as counted, so that
  nothing happens when it is freed;
* `Tidy.unlink_of_link`: what is left of a tidy graph after a link was made and broken;
* `Graph.UsesUp`: two graphs differ by the name of a slot, which is used up;
* `Action.usesUp_unlink_of_link`: in every graph that a client can make, to link two ports
  and to unlink them again uses up the name of a slot, and changes nothing else.
-/
import MediaGraph.Proofs.Teardown

namespace MediaGraph

variable {σ : Type}

/-! ### Names that are used up -/

namespace Arena

variable {kind : Kind} {α : Type}

/-- An entry that is created and goes leaves the entries as they were. -/
lemma get?_erase_insert (a : Arena kind α) (x : α) (h : Handle kind) :
    ((a.insert x).erase a.fresh).get? h = a.get? h := by
  rw [get?_erase, get?_insert]
  rcases eq_or_ne a.fresh h with rfl | hne
  · rw [if_pos rfl, Graph.get?_fresh]
  · rw [if_neg hne, if_neg hne.symm]

/-- A name that is used up does not count as an entry. -/
lemma values_erase_insert (a : Arena kind α) (x : α) :
    ((a.insert x).erase a.fresh).values = a.values := by
  have hcells : (a.cells.push (some x)).modify a.cells.size (fun _ => none) =
      a.cells.push none := by
    refine Array.ext (by simp) fun i hi _ => ?_
    rw [Array.getElem_modify, Array.getElem_push, Array.getElem_push]
    rw [Array.size_modify, Array.size_push] at hi
    grind
  simp only [values, insert, erase, fresh, size, hcells]
  simp

end Arena

namespace Graph

variable {g g' : Graph σ} {p q : PortId} {s : SlotId}

/-! ### Links that are made and broken -/

/-- A port gets a link. -/
def setLink (p : PortId) (l : Link) (g : Graph σ) : Graph σ :=
  g.modifyPort p ({ · with link := some l })

/-- It does not matter which link a port has that is freed. -/
lemma detach_setLink (p : PortId) (l : Link) (g : Graph σ) :
    (setLink p l g).detach p = g.detach p := by
  have hcounted : (setLink p l g).countedBy? p = g.countedBy? p := by
    simp only [countedBy?, setLink, Graph.modifyPort, Arena.get?_modify_self]
    rcases g.ports.get? p with _ | port
    · rfl
    · rcases hc : port.counted with _ | _ <;> simp [Option.filter, hc]
  have hports : (setLink p l g).ports.modify p ({ · with link := none, counted := false }) =
      g.ports.modify p ({ · with link := none, counted := false }) := by
    refine Arena.ext_get? (by simp [setLink, Graph.modifyPort]) fun r => ?_
    simp only [setLink, Graph.modifyPort, Arena.get?_modify]
    split
    · rw [Option.map_map]
      rfl
    · rfl
  rw [detach_eq, detach_eq g, hcounted, hports]
  rfl

/-- Nothing happens when a port without a link is freed, since it is not marked as
counted: its owner has nothing to take back. -/
lemma Tallied.detach_eq_self (h : g.Tallied) {port : Port} (hp : g.ports.get? p = some port)
    (hl : port.link = none) : g.detach p = g := by
  have hunmarked : port.counted = false := by
    by_contra hc
    rw [Bool.not_eq_false] at hc
    have hlinked := (h.counted hp hc).1
    rw [hl] at hlinked
    cases hlinked
  have hports : g.ports.modify p ({ · with link := none, counted := false }) = g.ports := by
    refine Arena.ext_get? (by simp) fun r => ?_
    rw [Arena.get?_modify]
    split
    · subst_vars
      rw [hp, Option.map_some, ← hl, ← hunmarked]
    · rfl
  have hnobody : g.countedBy? p = none := by
    rw [countedBy?, hp, Option.filter_some, hunmarked]
    rfl
  rw [detach_eq, hports, hnobody, Option.elim_none]

/-- A link that was made can be broken. Then both of its ends are as they were, and its
slot is gone. -/
lemma Tidy.unlink_of_link (h : g.Tidy) (ht : g.Tallied)
    (hlink : (Graph.link p q).run g = (.ok s, g')) :
    s = g.slots.fresh ∧ (Graph.unlink p q).run g' =
      (.ok (), { g with slots := (g.slots.insert {}).erase g.slots.fresh }) := by
  obtain ⟨out, inp, hp, hq, hout, hinp, hpl, hql, rfl, hg', -⟩ := h.toWellFormed.link hlink
  have hpq : q ≠ p := by
    rintro rfl
    obtain rfl := Option.some.inj (hp.symm.trans hq)
    exact absurd (hout.symm.trans hinp) (by decide)
  set grown : Graph σ := { g with slots := g.slots.insert {} } with hgrown
  have hset : g' = setLink q ⟨p, g.slots.fresh⟩ (setLink p ⟨q, g.slots.fresh⟩ grown) := hg'
  have htallied : grown.Tallied := ⟨ht.ready, ht.counted⟩
  -- each end is freed from the link that it got last, since ends are freed in any order
  have hfreed : (g'.detach p).detach q = grown :=
    calc (g'.detach p).detach q
        = (g'.detach q).detach p := commute_detach q p g'
      _ = ((setLink p ⟨q, g.slots.fresh⟩ grown).detach q).detach p := by
          rw [hset, detach_setLink]
      _ = ((setLink p ⟨q, g.slots.fresh⟩ grown).detach p).detach q := commute_detach p q _
      _ = (grown.detach p).detach q := by rw [detach_setLink]
      _ = grown := by
          rw [htallied.detach_eq_self hp hpl, htallied.detach_eq_self hq hql]
  have hp' := get?_ports_link (s := g.slots.fresh) hp hq hpq p
  have hq' := get?_ports_link (s := g.slots.fresh) hp hq hpq q
  rw [← hg', if_neg hpq.symm, if_pos rfl] at hp'
  rw [← hg', if_pos rfl] at hq'
  refine ⟨rfl, ?_⟩
  simp only [Graph.unlink, ExceptT.run, hp', hq', Port.peer?, Option.map_some, if_true,
    Graph.breakLink, Option.bind_some, hfreed, hgrown]

/-! ### Nothing but a name -/

/-- The graph `g'` is `g`, but for the name `s` of a slot, which is used up. -/
structure UsesUp (g : Graph σ) (s : SlotId) (g' : Graph σ) : Prop where
  nodes : g'.nodes = g.nodes
  ports : g'.ports = g.ports
  slot : ∀ t, g'.slots.get? t = g.slots.get? t
  ready : g'.ready = g.ready
  driver : g'.driver = g.driver
  stats : g'.stats = g.stats
  name : s = g.slots.fresh
  size : g'.slots.size = g.slots.size + 1
  linkCount : g'.linkCount = g.linkCount
  canReach : ∀ a b, g'.canReach a b = g.canReach a b

lemma usesUp_erase_insert (g : Graph σ) (c : Slot) : g.UsesUp g.slots.fresh
    { g with slots := (g.slots.insert c).erase g.slots.fresh } where
  nodes := rfl
  ports := rfl
  slot := g.slots.get?_erase_insert c
  ready := rfl
  driver := rfl
  stats := rfl
  name := rfl
  size := by rw [Arena.size_erase, Arena.size_insert]
  linkCount := congrArg List.length (g.slots.values_erase_insert c)
  canReach _ _ := rfl

end Graph

/-! ### Every graph of a client -/

namespace Action

variable [Processor σ]

/-- In every graph that actions make of the empty one, two ports that can be linked can be
unlinked again, and then the graph is as before, but for the name of the slot. -/
theorem usesUp_unlink_of_link (actions : List (Action σ)) {p q : PortId} {s : SlotId}
    {g' : Graph σ} (hlink : (Graph.link p q).run (graph actions) = (.ok s, g')) :
    ∃ g'', (Graph.unlink p q).run g' = (.ok (), g'') ∧ (graph actions).UsesUp s g'' := by
  obtain ⟨rfl, hunlink⟩ := (tidy_graph actions).unlink_of_link (tallied_graph actions) hlink
  exact ⟨_, hunlink, (graph actions).usesUp_erase_insert {}⟩

/-- The mixer with two links to one source, which has counted both of its inputs, loses
the first of its links. -/
def halved : List (Action (Adapter Empty)) :=
  doubled ++ [.unlink ⟨0⟩ ⟨2⟩]

/-- The lost link is made and broken again, and the mixer counts its other input as
before. -/
theorem usesUp_unlink_of_link_halved :
    ((graph halved).nodes.get? ⟨1⟩).map (·.readyIn) = some 1 ∧
    ((Graph.link ⟨0⟩ ⟨2⟩).run (graph halved)).1 = .ok ⟨2⟩ ∧
    ∃ g'', (Graph.unlink ⟨0⟩ ⟨2⟩).run ((Graph.link ⟨0⟩ ⟨2⟩).run (graph halved)).2 =
      (.ok (), g'') ∧ (graph halved).UsesUp ⟨2⟩ g'' := by
  have hlink : ((Graph.link ⟨0⟩ ⟨2⟩).run (graph halved)).1 = .ok ⟨2⟩ := by decide +kernel
  exact ⟨by decide +kernel, hlink, usesUp_unlink_of_link halved (Prod.ext hlink rfl)⟩

end Action

end MediaGraph

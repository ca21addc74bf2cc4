/-
Taking a graph apart.

* `Layout.cut`, `Layout.drop`: a link is broken, and a port goes with its link;
* `Layout.Paired`: the ends of every link name each other and a slot of their
  own, and every slot belongs to a link.  This part of a proper layout survives
  while a port that is gone is still listed by its owner;
* `Layout.Paired.proper`: the rest of it holds again as soon as the ports that
  are gone are not listed any more;
* `Graph.Tidy`: a graph in order every slot of which belongs to a link;
* `Tidy.unlink`, `Tidy.removePort`, `Tidy.removeNode`: the edits that remove
  something keep a graph tidy.
-/
import MediaGraph.Proofs.Edits
import MediaGraph.Proofs.Sizes

namespace MediaGraph

variable {σ : Type}

namespace Layout

variable {Λ Λ' : Layout} {p q : PortId} {l l' : Link}

/-! ### Links are broken -/

/-- The link of a port, if there is one. -/
def link? (Λ : Layout) (p : PortId) : Option Link := (Λ.port p).bind (·.link)

/-- The owner and the direction of a port. -/
def site? (Λ : Layout) (p : PortId) : Option (NodeId × Direction) :=
  (Λ.port p).map fun π => (π.owner, π.direction)

/-- A port is freed from its link. -/
def free (Λ : Layout) (p : PortId) : Layout :=
  { Λ with port := fun q =>
      if q = p then (Λ.port q).map ({ · with link := none }) else Λ.port q }

/-- Both ends of the link of a port are freed and the slot goes. -/
def cut (Λ : Layout) (p : PortId) : Layout :=
  match Λ.link? p with
  | none => Λ
  | some l => { (Λ.free p).free l.peer with
      slot := Function.update Λ.slot l.slot false }

/-- A port goes, after its link was broken. -/
def drop (Λ : Layout) (p : PortId) : Layout :=
  { Λ.cut p with port := Function.update (Λ.cut p).port p none }

@[simp] lemma node_cut : (Λ.cut p).node = Λ.node := by
  unfold cut
  split <;> rfl

@[simp] lemma place_cut : (Λ.cut p).place = Λ.place := by
  unfold cut
  split <;> rfl

@[simp] lemma node_drop : (Λ.drop p).node = Λ.node := node_cut

@[simp] lemma place_drop : (Λ.drop p).place = Λ.place := place_cut

lemma link?_free (Λ : Layout) (p q : PortId) :
    (Λ.free p).link? q = if q = p then none else Λ.link? q := by
  simp only [link?, free]
  split
  · rcases Λ.port q with _ | π <;> rfl
  · rfl

lemma site?_free (Λ : Layout) (p q : PortId) :
    (Λ.free p).site? q = Λ.site? q := by
  simp only [site?, free]
  split
  · rcases Λ.port q with _ | π <;> rfl
  · rfl

/-- Nothing changes for a port without a link. -/
lemma free_eq_self (h : Λ.link? p = none) : Λ.free p = Λ := by
  ext1 <;> try rfl
  funext q
  simp only [free]
  split
  · subst_vars
    rcases hq : Λ.port q with _ | π
    · rfl
    · have hnone : π.link = none := by simpa [link?, hq] using h
      rw [Option.map_some, ← hnone]
  · rfl

/-- A broken link changes the links of its two ends only. -/
lemma link?_cut (Λ : Layout) (p q : PortId) :
    (Λ.cut p).link? q = if q = p ∨ (Λ.link? p).any (q = ·.peer) then none
      else Λ.link? q := by
  unfold cut
  rcases h : Λ.link? p with _ | l
  · by_cases hq : q = p
    · subst hq
      simp [h]
    · simp [hq]
  · have hfree : ((Λ.free p).free l.peer).link? q =
        if q = p ∨ q = l.peer then none else Λ.link? q := by
      rw [link?_free, link?_free]
      by_cases hq : q = l.peer <;> simp [hq]
    simp only [Option.any_some, decide_eq_true_eq]
    exact hfree

@[simp] lemma site?_cut : (Λ.cut p).site? q = Λ.site? q := by
  unfold cut
  split
  · rfl
  · exact (site?_free _ _ _).trans (site?_free _ _ _)

lemma link?_drop (Λ : Layout) (p q : PortId) :
    (Λ.drop p).link? q = (Λ.cut p).link? q := by
  by_cases hq : q = p
  · subst hq
    rw [link?_cut, if_pos (Or.inl rfl)]
    simp [link?, drop]
  · simp [link?, drop, hq]

lemma site?_drop (Λ : Layout) (p q : PortId) :
    (Λ.drop p).site? q = if q = p then none else Λ.site? q := by
  have hcut := site?_cut (Λ := Λ) (p := p) (q := q)
  simp only [site?, drop, Function.update_apply] at hcut ⊢
  split
  · rfl
  · exact hcut

/-! ### Links in pairs -/

/-- The ends of every link name each other and a slot of their own, and every
slot belongs to a link. -/
structure Paired (Λ : Layout) : Prop where
  peer : ∀ {p l}, Λ.link? p = some l → Λ.link? l.peer = some ⟨p, l.slot⟩
  site : ∀ {p l a b}, Λ.link? p = some l → Λ.site? p = some a →
    Λ.site? l.peer = some b → b.1 ≠ a.1 ∧ b.2 ≠ a.2
  live : ∀ {p l}, Λ.link? p = some l → Λ.slot l.slot = true
  pair : ∀ {p q l l'}, Λ.link? p = some l → Λ.link? q = some l' →
    l.slot = l'.slot → q = p ∨ q = l.peer
  used : ∀ {s}, Λ.slot s = true → ∃ p l, Λ.link? p = some l ∧ l.slot = s

/-- A link is broken at its two ends and at no other port. -/
lemma link?_cut_eq_some (hp : Λ.link? p = some l) :
    (Λ.cut p).link? q = some l' ↔ q ≠ p ∧ q ≠ l.peer ∧ Λ.link? q = some l' := by
  simp only [link?_cut, hp, Option.any_some, decide_eq_true_eq]
  split
  · rename_i hq
    exact iff_of_false (by simp) fun h => hq.elim h.1 h.2.1
  · rename_i hq
    rw [not_or] at hq
    simp [hq]

namespace Paired

/-- Another link has another slot. -/
lemma slot_ne (h : Λ.Paired) (hp : Λ.link? p = some l)
    (hq : Λ.link? q = some l') (hqp : q ≠ p) (hql : q ≠ l.peer) :
    l'.slot ≠ l.slot := by
  intro he
  rcases h.pair hp hq he.symm with rfl | rfl
  · exact hqp rfl
  · exact hql rfl

/-- Another link has other ends. -/
lemma peer_ne (h : Λ.Paired) (hp : Λ.link? p = some l)
    (hq : Λ.link? q = some l') (hqp : q ≠ p) (hql : q ≠ l.peer) :
    l'.peer ≠ p ∧ l'.peer ≠ l.peer := by
  have hback := h.peer hq
  refine ⟨fun he => ?_, fun he => ?_⟩
  · rw [he, hp] at hback
    exact hql (by rw [Option.some.inj hback])
  · rw [he, h.peer hp] at hback
    exact hqp (congrArg Link.peer (Option.some.inj hback)).symm

/-- Broken links leave the others in pairs. -/
lemma cut (h : Λ.Paired) (p : PortId) : (Λ.cut p).Paired := by
  rcases hp : Λ.link? p with _ | l
  · have hcut : Λ.cut p = Λ := by simp [Layout.cut, hp]
    rwa [hcut]
  have hslot : (Λ.cut p).slot = Function.update Λ.slot l.slot false := by
    simp [Layout.cut, hp]
  exact {
    peer := fun hq => by
      obtain ⟨hqp, hql, hq⟩ := (link?_cut_eq_some hp).mp hq
      obtain ⟨hnep, hnel⟩ := h.peer_ne hp hq hqp hql
      exact (link?_cut_eq_some hp).mpr ⟨hnep, hnel, h.peer hq⟩
    site := fun hq ha hb => by
      rw [site?_cut] at ha hb
      exact h.site ((link?_cut_eq_some hp).mp hq).2.2 ha hb
    live := fun hq => by
      obtain ⟨hqp, hql, hq⟩ := (link?_cut_eq_some hp).mp hq
      rw [hslot, Function.update_of_ne (h.slot_ne hp hq hqp hql)]
      exact h.live hq
    pair := fun hq hr he => h.pair ((link?_cut_eq_some hp).mp hq).2.2
      ((link?_cut_eq_some hp).mp hr).2.2 he
    used := fun {s} hs => by
      rw [hslot, Function.update_apply] at hs
      split at hs
      · cases hs
      · rename_i hsl
        obtain ⟨q, l', hq, rfl⟩ := h.used hs
        refine ⟨q, l', (link?_cut_eq_some hp).mpr ⟨?_, ?_, hq⟩, rfl⟩
        · rintro rfl
          exact hsl (by rw [Option.some.inj (hq.symm.trans hp)])
        · rintro rfl
          exact hsl (by rw [Option.some.inj (hq.symm.trans (h.peer hp))]) }

/-- So do ports that go with their links. -/
lemma drop (h : Λ.Paired) (p : PortId) : (Λ.drop p).Paired := by
  have hcut := h.cut p
  have hsite : ∀ {q a}, (Λ.drop p).site? q = some a → (Λ.cut p).site? q = some a := by
    intro q a hq
    rw [site?_drop] at hq
    split at hq
    · cases hq
    · rwa [site?_cut]
  refine ⟨?_, ?_, ?_, ?_, ?_⟩ <;> simp only [link?_drop]
  · exact hcut.peer
  · exact fun hq ha hb => hcut.site hq (hsite ha) (hsite hb)
  · exact hcut.live
  · exact hcut.pair
  · exact hcut.used

/-- Links in pairs are a matter of ports and slots. -/
lemma congr (h : Λ.Paired) (hport : Λ'.port = Λ.port)
    (hslot : Λ'.slot = Λ.slot) : Λ'.Paired := by
  have hlink : Λ'.link? = Λ.link? := by
    funext q
    rw [link?, hport, link?]
  have hsite : Λ'.site? = Λ.site? := by
    funext q
    rw [site?, hport, site?]
  refine ⟨?_, ?_, ?_, ?_, ?_⟩ <;> simp only [hlink, hsite, hslot]
  · exact h.peer
  · exact h.site
  · exact h.live
  · exact h.pair
  · exact h.used

end Paired

/-! ### Several ports -/

lemma node_foldl_drop (Λ : Layout) (ports : List PortId) :
    (ports.foldl drop Λ).node = Λ.node := by
  induction ports generalizing Λ with
  | nil => rfl
  | cons p ports ih => rw [List.foldl_cons, ih, node_drop]

lemma place_foldl_drop (Λ : Layout) (ports : List PortId) :
    (ports.foldl drop Λ).place = Λ.place := by
  induction ports generalizing Λ with
  | nil => rfl
  | cons p ports ih => rw [List.foldl_cons, ih, place_drop]

lemma site?_foldl_drop (Λ : Layout) (ports : List PortId) (q : PortId) :
    (ports.foldl drop Λ).site? q = if q ∈ ports then none else Λ.site? q := by
  induction ports generalizing Λ with
  | nil => simp
  | cons p ports ih =>
      rw [List.foldl_cons, ih, site?_drop]
      by_cases hq : q ∈ ports <;> simp [hq]

lemma Paired.foldl_drop (h : Λ.Paired) (ports : List PortId) :
    (ports.foldl Layout.drop Λ).Paired := by
  induction ports generalizing Λ with
  | nil => exact h
  | cons p ports ih => exact ih (h.drop p)

/-! ### Proper layouts -/

lemma link?_eq_some : Λ.link? p = some l ↔
    ∃ port, Λ.port p = some port ∧ port.link = some l :=
  Option.bind_eq_some_iff

lemma site?_eq_some {n : NodeId} {d : Direction} : Λ.site? p = some (n, d) ↔
    ∃ port, Λ.port p = some port ∧ port.owner = n ∧ port.direction = d := by
  simp only [site?, Option.map_eq_some_iff, Prod.mk.injEq]

/-- The links of a proper layout come in pairs. -/
lemma Proper.paired (hΛ : Λ.Proper)
    (hused : ∀ s, Λ.slot s = true → ∃ p l, Λ.link? p = some l ∧ l.slot = s) :
    Λ.Paired where
  peer h := by
    obtain ⟨port, hp, hl⟩ := link?_eq_some.mp h
    obtain ⟨peer, hq, hl', -⟩ := hΛ.link hp hl
    exact link?_eq_some.mpr ⟨peer, hq, hl'⟩
  site h ha hb := by
    obtain ⟨port, hp, hl⟩ := link?_eq_some.mp h
    obtain ⟨peer, hq, -, hd, ho⟩ := hΛ.link hp hl
    obtain ⟨port', hp', ho₁, hd₁⟩ := site?_eq_some.mp ha
    obtain ⟨peer', hq', ho₂, hd₂⟩ := site?_eq_some.mp hb
    obtain rfl := Option.some.inj (hp.symm.trans hp')
    obtain rfl := Option.some.inj (hq.symm.trans hq')
    rw [← ho₁, ← ho₂, ← hd₁, ← hd₂]
    exact ⟨ho, hd⟩
  live h := by
    obtain ⟨port, hp, hl⟩ := link?_eq_some.mp h
    exact hΛ.slot_live hp hl
  pair h h' he := by
    obtain ⟨port, hp, hl⟩ := link?_eq_some.mp h
    obtain ⟨port', hq, hl'⟩ := link?_eq_some.mp h'
    exact hΛ.slot_pair hp hl hq hl' he
  used {s} hs := hused s hs

/-- Ports of other nodes that are gone are missed by none. -/
lemma Proper.filter_portsOf (hΛ : Λ.Proper) {gone : List PortId} {n : NodeId}
    (h : ∀ q ∈ gone, ∀ port, Λ.port q = some port → port.owner ≠ n)
    (d : Direction) : (Λ.portsOf n d).filter (· ∉ gone) = Λ.portsOf n d := by
  refine List.filter_eq_self.mpr fun q hq => ?_
  obtain ⟨port, hport, howner, -⟩ := hΛ.mem_portsOf.mp hq
  simpa using fun hgone => h q hgone port hport howner

/-- What is left of a proper layout after some ports are gone is proper, if its
links come in pairs and the ports that are gone are not listed. -/
lemma Paired.proper (hΛ : Λ.Proper) (h : Λ'.Paired) (gone : List PortId)
    (hsite : ∀ q, Λ'.site? q = if q ∈ gone then none else Λ.site? q)
    (hlist : ∀ n d, Λ'.portsOf n d = (Λ.portsOf n d).filter (· ∉ gone))
    (hplace : ∀ n, Λ'.place n = (Λ'.node n).isSome) : Λ'.Proper := by
  have hmem : ∀ {q n d}, q ∈ Λ'.portsOf n d ↔ Λ'.site? q = some (n, d) := by
    intro q n d
    have hold : q ∈ Λ.portsOf n d ↔ Λ.site? q = some (n, d) :=
      hΛ.mem_portsOf.trans site?_eq_some.symm
    rw [hlist, List.mem_filter, hold, hsite]
    by_cases hq : q ∈ gone <;> simp [hq]
  have hsome : ∀ {q port}, Λ'.port q = some port →
      Λ'.site? q = some (port.owner, port.direction) :=
    fun hq => site?_eq_some.mpr ⟨_, hq, rfl, rfl⟩
  refine ⟨hmem.trans site?_eq_some, ?_, ?_, ?_, ?_, ?_, hplace⟩
  · intro q port hq
    have hlisted := hmem.mpr (hsome hq)
    rcases hn : Λ'.node port.owner with _ | ν
    · simp [portsOf, hn] at hlisted
    · exact ⟨ν, rfl⟩
  · intro n d
    rw [hlist]
    exact (hΛ.nodup n d).filter _
  · intro q port l hq hl
    have hback := h.peer (link?_eq_some.mpr ⟨port, hq, hl⟩)
    obtain ⟨peer, hpeer, hl'⟩ := link?_eq_some.mp hback
    have hne := h.site (link?_eq_some.mpr ⟨port, hq, hl⟩) (hsome hq) (hsome hpeer)
    exact ⟨peer, hpeer, hl', hne.2, hne.1⟩
  · intro q port l hq hl
    exact h.live (link?_eq_some.mpr ⟨port, hq, hl⟩)
  · intro q r port port' l l' hq hl hr hl' he
    exact h.pair (link?_eq_some.mpr ⟨port, hq, hl⟩)
      (link?_eq_some.mpr ⟨port', hr, hl'⟩) he

end Layout

/-! ### Graphs -/

/-- The queue loses the link of a node that does not wait. -/
lemma ReadyQueue.Lists.forget {q : ReadyQueue} {L : List NodeId} {n : NodeId}
    (h : q.Lists L) (hn : n ∉ L) : (q.forget n).Lists L where
  nodup := h.nodup
  first := h.first
  last := h.last
  length := h.length
  inside A m B hL := by
    have hne : n ≠ m := by
      rintro rfl
      simp [hL] at hn
    simpa [ReadyQueue.forget, Arena.get?_erase, hne] using h.inside A m B hL
  outside m link hm hl := by
    simp only [ReadyQueue.forget, Arena.get?_erase] at hl
    split at hl
    · cases hl
    · exact h.outside m link hm hl

namespace Graph

variable {g : Graph σ} {n : NodeId} {p q : PortId}

/-- A change of a node that leaves its layout alone. -/
lemma layout_modifyNode (g : Graph σ) (n : NodeId) {f : Node σ → Node σ}
    (hf : ∀ node, (f node).layout = node.layout) :
    (g.modifyNode n f).layout = g.layout := by
  ext1 <;> try rfl
  funext m
  simp only [Graph.layout, Graph.modifyNode, Arena.get?_modify]
  split
  · rw [Option.map_map]
    exact congrArg (Option.map · _) (funext hf)
  · rfl

/-- A port is freed. -/
lemma layout_detach (g : Graph σ) (p : PortId) :
    (g.detach p).layout = g.layout.free p := by
  have hfree : (g.modifyPort p ({ · with link := none, counted := false })).layout =
      g.layout.free p := by
    ext1 <;> try rfl
    funext q
    simp only [Graph.layout, Graph.modifyPort, Layout.free, Arena.get?_modify,
      eq_comm (a := p)]
    split
    · rcases g.ports.get? q with _ | port <;> rfl
    · rfl
  unfold Graph.detach
  split
  · rename_i hp
    exact (Layout.free_eq_self (by simp [Layout.link?, Graph.layout, hp])).symm
  · simp only
    split
    · rw [layout_modifyNode]
      · exact hfree
      · exact fun _ => rfl
    · exact hfree

/-- The link of a port is broken. -/
lemma layout_breakLink (g : Graph σ) (p : PortId) :
    (g.breakLink p).layout = g.layout.cut p := by
  have hlink : (g.ports.get? p).bind (·.link) = g.layout.link? p := by
    simp only [Layout.link?, Graph.layout]
    rcases g.ports.get? p with _ | port <;> rfl
  rcases hl : g.layout.link? p with _ | l
  · simp only [Graph.breakLink, Layout.cut, hlink, hl]
    rw [layout_detach, Layout.free_eq_self hl]
  · have hfreed : ((g.detach p).detach l.peer).layout =
        (g.layout.free p).free l.peer := by
      rw [layout_detach, layout_detach]
    simp only [Graph.breakLink, Layout.cut, hlink, hl]
    rw [← hfreed]
    ext1 <;> try rfl
    have hslot := congrArg Layout.slot hfreed
    funext s
    simp only [Graph.layout, Arena.get?_erase, Function.update_apply,
      eq_comm (a := l.slot)]
    split
    · rfl
    · exact congrFun hslot s

/-- A port goes with its link. -/
lemma layout_dropPort (g : Graph σ) (p : PortId) :
    (g.dropPort p).layout = g.layout.drop p := by
  have h := g.layout_breakLink p
  unfold Graph.dropPort Layout.drop
  rw [← h]
  ext1 <;> try rfl
  funext q
  simp only [Graph.layout, Arena.get?_erase, Function.update_apply,
    eq_comm (a := p)]
  split <;> rfl

/-- Several ports go with their links. -/
lemma layout_foldl_dropPort (g : Graph σ) (ports : List PortId) :
    (ports.foldl dropPort g).layout = ports.foldl Layout.drop g.layout := by
  induction ports generalizing g with
  | nil => rfl
  | cons p ports ih => rw [List.foldl_cons, ih, layout_dropPort, List.foldl_cons]

/-- The ports of a live node, of both directions. -/
lemma mem_ports_iff {g : Graph σ} {node : Node σ} {n : NodeId}
    (hn : g.nodes.get? n = some node) {q : PortId} :
    q ∈ (node.inputs ++ node.outputs).toList ↔
      ∃ d, q ∈ g.layout.portsOf n d := by
  have hnode : g.layout.node n = some node.layout := by simp [Graph.layout, hn]
  simp only [Layout.portsOf, hnode, Option.elim_some, Array.toList_append,
    List.mem_append]
  constructor
  · rintro (hq | hq)
    · exact ⟨.input, hq⟩
    · exact ⟨.output, hq⟩
  · rintro ⟨_ | _, hq⟩
    · exact Or.inl hq
    · exact Or.inr hq

/-- A node goes with its place in the queue. -/
lemma layout_eraseNode (g : Graph σ) (n : NodeId) :
    ({ g with nodes := g.nodes.erase n, ready := g.ready.forget n } :
      Graph σ).layout = { g.layout with
        node := Function.update g.layout.node n none
        place := Function.update g.layout.place n false } := by
  ext1 <;> try rfl
  · funext m
    simp only [Graph.layout, Arena.get?_erase, Function.update_apply,
      eq_comm (a := n)]
    split <;> rfl
  · funext m
    simp only [Graph.layout, ReadyQueue.forget, Arena.get?_erase,
      Function.update_apply, eq_comm (a := n)]
    split <;> rfl

/-! ### What taking apart leaves alone -/

@[simp] lemma ready_detach (g : Graph σ) (p : PortId) :
    (g.detach p).ready = g.ready := by
  unfold Graph.detach
  split
  · rfl
  · simp only
    split <;> rfl

@[simp] lemma ready_breakLink (g : Graph σ) (p : PortId) :
    (g.breakLink p).ready = g.ready := by
  unfold Graph.breakLink
  split <;> simp

@[simp] lemma ready_dropPort (g : Graph σ) (p : PortId) :
    (g.dropPort p).ready = g.ready :=
  g.ready_breakLink p

lemma ready_foldl_dropPort (g : Graph σ) (ports : List PortId) :
    (ports.foldl dropPort g).ready = g.ready := by
  induction ports generalizing g with
  | nil => rfl
  | cons p ports ih => rw [List.foldl_cons, ih, ready_dropPort]

/-! ### Tidy graphs -/

/-- The graph is in order, every slot belongs to a link, and nobody waits for
a turn. -/
structure Tidy (g : Graph σ) : Prop extends g.WellFormed where
  used : ∀ {s}, g.layout.slot s = true →
    ∃ p l, g.layout.link? p = some l ∧ l.slot = s
  idle : g.ready.Lists []

namespace Tidy

lemma empty : (Graph.empty : Graph σ).Tidy where
  toWellFormed := wellFormed_empty
  used hs := by simp [Graph.layout, Graph.empty] at hs
  idle := ReadyQueue.lists_empty

lemma paired (h : g.Tidy) : g.layout.Paired :=
  h.layout.paired fun _ => h.used

/-- A change that creates nothing leaves a tidy graph, if it leaves a proper
layout, every slot of which belongs to a link, and nobody waits. -/
lemma of_shrinks {g' : Graph σ} (h : g.Tidy) (hs : g.Shrinks g')
    (hlayout : g'.layout.Proper) (hpaired : g'.layout.Paired)
    (hidle : g'.ready.Lists []) : g'.Tidy where
  layout := hlayout
  size := by
    rw [hs.places, h.size]
    exact (congrFun hs.created .node).symm
  queue := ⟨[], hidle⟩
  used := hpaired.used
  idle := hidle

/-- A node changes, with the same ports. -/
lemma modifyNode (h : g.Tidy) {node : Node σ} (hn : g.nodes.get? n = some node)
    (f : Node σ → Node σ) (hf : ∀ d, (f node).portsOf d = node.portsOf d) :
    (g.modifyNode n f).Tidy where
  toWellFormed := (h.toWellFormed.modifyNode hn f hf).1
  used := h.used
  idle := h.idle

/-- A link is broken. -/
lemma breakLink (h : g.Tidy) (p : PortId) : (g.breakLink p).Tidy := by
  have hlayout := g.layout_breakLink p
  have hpaired := h.paired.cut p
  have hlist : ∀ m d, (g.layout.cut p).portsOf m d = g.layout.portsOf m d :=
    fun m d => by simp [Layout.portsOf]
  have hproper : (g.layout.cut p).Proper := by
    refine hpaired.proper h.layout [] ?_ ?_ ?_
    · simp
    · simp [hlist]
    · simpa using h.layout.place
  rw [← hlayout] at hpaired hproper
  exact h.of_shrinks (.breakLink g p) hproper hpaired (by simpa using h.idle)

lemma unlink (h : g.Tidy) (p q : PortId) : ((Graph.unlink p q).run g).2.Tidy := by
  simp only [Graph.unlink, ExceptT.run]
  repeat' split
  all_goals first
    | exact h
    | exact h.breakLink p

/-- A port is removed. -/
lemma removePort (h : g.Tidy) (p : PortId) :
    ((Graph.removePort p).run g).2.Tidy := by
  have hs := Shrinks.removePort g p
  simp only [Graph.removePort, ExceptT.run] at hs ⊢
  rcases hp : g.ports.get? p with _ | port
  · exact h
  · simp only [hp] at hs ⊢
    have hlayout := g.layout_dropPort p
    have hport : g.layout.port p = some port.layout := by simp [Graph.layout, hp]
    obtain ⟨ν, hν⟩ := h.layout.owner_live hport
    have hν' : (g.dropPort p).layout.node port.owner = some ν := by
      rw [hlayout, Layout.node_drop]
      exact hν
    obtain ⟨node, hn, rfl⟩ := Option.map_eq_some_iff.mp hν'
    simp only [hn] at hs ⊢
    set f : Node σ → Node σ := fun node => { node with
      inputs := node.inputs.filter (· ≠ p)
      outputs := node.outputs.filter (· ≠ p)
      requiredIn := if port.isRequired then node.requiredIn - 1
        else node.requiredIn
      readyIn := min node.readyIn (if port.isRequired then node.requiredIn - 1
        else node.requiredIn) }
    have hfinal : ((g.dropPort p).modifyNode port.owner f).layout =
        (g.layout.drop p).setNode port.owner (f node).layout := by
      rw [layout_setNode hn, hlayout]
    have hpaired : ((g.dropPort p).modifyNode port.owner f).layout.Paired := by
      rw [hfinal]
      exact (h.paired.drop p).congr rfl rfl
    refine h.of_shrinks hs ?_ hpaired (by simpa [Graph.modifyNode] using h.idle)
    refine hpaired.proper h.layout [p] ?_ ?_ ?_ <;> rw [hfinal]
    · intro q
      have hdrop := g.layout.site?_drop p q
      simpa [Layout.site?, Layout.setNode] using hdrop
    · intro m d
      by_cases hm : m = port.owner
      · subst hm
        cases d <;> simp [Layout.portsOf, NodeLayout.portsOf, Node.layout, f,
          Layout.setNode, show g.layout.node port.owner = some node.layout from hν]
      · -- another node does not list the port
        rw [h.layout.filter_portsOf (fun q hq port' hport' => ?_)]
        · simp [Layout.portsOf, Layout.setNode, hm]
        · obtain rfl := List.mem_singleton.mp hq
          obtain rfl := Option.some.inj (hport.symm.trans hport')
          exact Ne.symm hm
    · intro m
      simp only [Layout.setNode, Layout.place_drop, Layout.node_drop,
        Function.update_apply, h.layout.place]
      split
      · subst_vars
        rw [show g.layout.node port.owner = some node.layout from hν]
        rfl
      · rfl

/-- A node is removed with its ports. -/
lemma removeNode (h : g.Tidy) (n : NodeId) :
    ((Graph.removeNode n).run g).2.Tidy := by
  have hs := Shrinks.removeNode g n
  simp only [Graph.removeNode, ExceptT.run] at hs ⊢
  rcases hn : g.nodes.get? n with _ | node
  · exact h
  · simp only [hn, ← Array.foldl_toList] at hs ⊢
    have hidle : (g.ready.remove n).2 = g.ready := by
      rw [h.idle.remove_eq_self List.not_mem_nil]
    rw [hidle] at hs ⊢
    set l := (node.inputs ++ node.outputs).toList
    set bare := l.foldl dropPort g
    have hmem : ∀ q, q ∈ l ↔ ∃ d, q ∈ g.layout.portsOf n d :=
      fun q => mem_ports_iff hn
    have hfinal : ({ bare with
        nodes := bare.nodes.erase n, ready := bare.ready.forget n } :
        Graph σ).layout = { l.foldl Layout.drop g.layout with
          node := Function.update g.layout.node n none
          place := Function.update g.layout.place n false } := by
      rw [layout_eraseNode, g.layout_foldl_dropPort l, Layout.node_foldl_drop,
        Layout.place_foldl_drop]
    have hpaired : ({ bare with
        nodes := bare.nodes.erase n, ready := bare.ready.forget n } :
        Graph σ).layout.Paired := by
      rw [hfinal]
      exact (h.paired.foldl_drop l).congr rfl rfl
    refine h.of_shrinks hs ?_ hpaired ?_
    · refine hpaired.proper h.layout l ?_ ?_ ?_ <;> rw [hfinal]
      · intro q
        have hdrop := g.layout.site?_foldl_drop l q
        simpa [Layout.site?] using hdrop
      · intro m d
        by_cases hm : m = n
        · subst hm
          have hnil : (g.layout.portsOf m d).filter (· ∉ l) = [] :=
            List.filter_eq_nil_iff.mpr fun q hq => by
              simpa using (hmem q).mpr ⟨d, hq⟩
          rw [hnil]
          simp [Layout.portsOf]
        · -- another node does not list the ports of this one
          rw [h.layout.filter_portsOf (fun q hq port hport => ?_)]
          · simp [Layout.portsOf, hm]
          · obtain ⟨d', hq'⟩ := (hmem q).mp hq
            obtain ⟨port', hport', howner, -⟩ := h.layout.mem_portsOf.mp hq'
            obtain rfl := Option.some.inj (hport.symm.trans hport')
            rw [howner]
            exact Ne.symm hm
      · intro m
        simp only [Function.update_apply, h.layout.place]
        split <;> rfl
    · rw [g.ready_foldl_dropPort l]
      exact h.idle.forget List.not_mem_nil

end Tidy

end Graph

end MediaGraph

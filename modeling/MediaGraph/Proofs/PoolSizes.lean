/-
The sizes of buffer pools make no difference.

* `Edit.Maps`: an edit does to a graph what another one does to the graph with other
  processors;
* `Description.withoutBuffers`: a description that says nothing about its pools;
* `Assembly.map_single_of_build`: what is built of two descriptions that differ in the
  sizes of their pools alone is the same once its pools have one buffer each;
* `Graph.replay`: activations one after the other;
* `Graph.LendsOne`: what producers have lent is what their outputs name, and it is never
  anything but the buffer with the least name;
* `Assembly.pools_irrelevant`: two graphs that were built of such descriptions cannot be
  told apart by activations, except by looking at the pools.
-/
import MediaGraph.Proofs.Lending

namespace MediaGraph

variable {σ ρ : Type}

/-! ### Edits of graphs with other processors -/

/-- An edit does to a graph what another one does to the graph with other processors. -/
def Edit.Maps {α : Type} (f : σ → ρ) (e : Edit σ α) (e' : Edit ρ α) : Prop :=
  ∀ g : Graph σ, e'.run (g.map f) = ((e.run g).1, (e.run g).2.map f)

namespace Edit.Maps

variable {α β : Type} {f : σ → ρ}

lemma pure (x : α) : Maps f (Pure.pure x) (Pure.pure x) := fun _ => rfl

lemma bind {e : Edit σ α} {e' : Edit ρ α} {k : α → Edit σ β} {k' : α → Edit ρ β}
    (h : e.Maps f e') (hk : ∀ x, Maps f (k x) (k' x)) : Maps f (e >>= k) (e' >>= k') := by
  intro g
  have hrun : (e >>= k).run g = ExceptT.bindCont k (e.run g).1 (e.run g).2 := rfl
  have hrun' : (e' >>= k').run (g.map f) =
      ExceptT.bindCont k' (e'.run (g.map f)).1 (e'.run (g.map f)).2 := rfl
  rw [hrun, hrun', h g]
  rcases e.run g with ⟨_ | x, g₁⟩
  · rfl
  · exact hk x g₁

lemma forM {k : α → Edit σ PUnit} {k' : α → Edit ρ PUnit} (hk : ∀ x, Maps f (k x) (k' x))
    (l : List α) : Maps f (l.forM k) (l.forM k') := by
  induction l with
  | nil => exact pure _
  | cons x l ih => exact (hk x).bind fun _ => ih

lemma addNode (x : σ) : Maps f (Graph.addNode x) (Graph.addNode (f x)) := by
  intro g
  refine Prod.ext (congrArg Except.ok (Arena.fresh_map _ g.nodes)) ?_
  simp only [Graph.addNode, ExceptT.run, Graph.map, Arena.map_insert]
  rfl

lemma addPort (n : NodeId) (direction : Direction) (flags : PortFlags) :
    Maps f (Graph.addPort n direction flags) (Graph.addPort n direction flags) := by
  intro g
  simp only [Graph.addPort, ExceptT.run, Graph.get?_nodes_map]
  cases g.nodes.get? n with
  | none => rfl
  | some node =>
      simp only [Option.map_some, show (node.map f).requiredIn = node.requiredIn from rfl]
      split
      · rfl
      · refine Prod.ext rfl (Eq.symm ?_)
        exact Graph.map_modifyNode f
          { g with ports := g.ports.insert { direction, owner := n, flags } } n fun _ => rfl

lemma link (p q : PortId) : Maps f (Graph.link p q) (Graph.link p q) := by
  intro g
  simp only [Graph.link, ExceptT.run, show (g.map f).ports = g.ports from rfl]
  split <;> try rfl
  repeat' split
  all_goals rfl

lemma setFlags (n : NodeId) (flags : NodeFlags) :
    Maps f (Graph.setFlags n flags) (Graph.setFlags n flags) := by
  intro g
  simp only [Graph.setFlags, ExceptT.run, Graph.get?_nodes_map]
  cases g.nodes.get? n with
  | none => rfl
  | some node => exact Prod.ext rfl (Graph.map_modifyNode f g n fun _ => rfl).symm

lemma setRequiredIn (n : NodeId) (k : Nat) :
    Maps f (Graph.setRequiredIn n k) (Graph.setRequiredIn n k) := by
  intro g
  simp only [Graph.setRequiredIn, ExceptT.run, Graph.get?_nodes_map]
  cases g.nodes.get? n with
  | none => rfl
  | some node => exact Prod.ext rfl (Graph.map_modifyNode f g n fun _ => rfl).symm

end Edit.Maps

/-! ### Descriptions -/

/-- A node whose pool has one buffer. -/
def NodeSpec.single (spec : NodeSpec) : NodeSpec := { spec with buffers := some 1 }

namespace Description

/-- A description that says nothing about the sizes of its pools. -/
def withoutBuffers (d : Description) : Description :=
  { d with nodes := d.nodes.map ({ · with buffers := none }) }

lemma map_single_withoutBuffers (d : Description) :
    d.withoutBuffers.nodes.map NodeSpec.single = d.nodes.map NodeSpec.single := by
  simp only [withoutBuffers, List.map_map]
  rfl

lemma named_withoutBuffers (d : Description) :
    Assembly.named 0 d.withoutBuffers.nodes = Assembly.named 0 d.nodes := by
  simp only [Assembly.named, withoutBuffers, List.zipIdx_map, List.map_map]
  rfl

lemma sinksOf_withoutBuffers (d : Description) :
    Assembly.sinksOf d.withoutBuffers = Assembly.sinksOf d := by
  have hkind : ∀ name, (d.withoutBuffers.node? name).any (·.kind = .sink) =
      (d.node? name).any (·.kind = .sink) := by
    intro name
    rw [node?, withoutBuffers, List.find?_map, Option.any_map]
    rfl
  funext nodes
  simp only [Assembly.sinksOf, hkind]

end Description

namespace Assembly

variable {τ : Type}

lemma mapPool_processorOf (spec : NodeSpec) :
    (processorOf spec : Adapter τ).mapPool .single = processorOf spec.single := by
  have hsingle := (BufferPool.whole_ofSize spec.bufferCount).single
  rcases spec with ⟨name, kind, inputs, buffers, async, requiredIn, optionalInputs⟩
  cases kind with
  | source => exact congrArg (fun pool => Adapter.source { pool }) hsingle
  | mixer => exact congrArg (fun pool => Adapter.mixer { pool }) hsingle
  | sink => rfl

/-- A node with a pool of one buffer is added as the node is. -/
lemma maps_addSpec (spec : NodeSpec) :
    Edit.Maps (Adapter.mapPool (τ := τ) .single) (addSpec spec) (addSpec spec.single) := by
  unfold addSpec
  rw [← mapPool_processorOf]
  refine .bind (.addNode _) fun n => .bind (.forM (fun i => ?_) _) fun _ =>
    .bind (.forM (fun i => ?_) _) fun _ => ?_
  · exact .bind (.addPort n _ _) fun _ => .pure _
  · exact .bind (.addPort n _ _) fun _ => .pure _
  · simp only [show spec.single.async = spec.async from rfl,
      show spec.single.requiredIn = spec.requiredIn from rfl]
    cases spec.requiredIn with
    | none =>
        split
        · exact .bind (.setFlags n _) fun _ => .pure n
        · exact .pure n
    | some k =>
        have hlast := Edit.Maps.bind (f := Adapter.mapPool (τ := τ) .single)
          (.setRequiredIn n k) fun _ => .pure n
        split
        · exact .bind (.setFlags n _) fun _ => hlast
        · exact hlast

/-- So are the nodes of a description. -/
lemma maps_addSpecs (specs : List NodeSpec) :
    Edit.Maps (Adapter.mapPool (τ := τ) .single) (addSpecs specs)
      (addSpecs (specs.map NodeSpec.single)) := by
  induction specs with
  | nil => exact .pure []
  | cons spec specs ih =>
      rw [addSpecs, addSpecs, List.map_cons, List.mapM_cons, List.mapM_cons]
      exact .bind (.bind (maps_addSpec spec) fun n => .pure (spec.name, n)) fun x =>
        .bind ih fun rest => .pure (x :: rest)

/-- An assembly with other processors. -/
def map (f : Adapter τ → Adapter τ) (a : Assembly τ) : Assembly τ :=
  { a with graph := a.graph.map f }

variable {f : Adapter τ → Adapter τ} {a b : Assembly τ}

lemma map_map (f f' : Adapter τ → Adapter τ) (a : Assembly τ) :
    (a.map f).map f' = a.map (f' ∘ f) := by
  simp only [map, Graph.map_map]

lemma resolve_map (direction : Direction) (reference : String) :
    (a.map f).resolve direction reference = a.resolve direction reference := by
  have hports : ∀ n, ((a.map f).graph.nodes.get? n).elim #[] (·.portsOf direction) =
      (a.graph.nodes.get? n).elim #[] (·.portsOf direction) := by
    intro n
    rw [show (a.map f).graph = a.graph.map f from rfl, Graph.get?_nodes_map]
    cases a.graph.nodes.get? n with
    | none => rfl
    | some node => cases direction <;> rfl
  simp only [resolve, hports]
  rfl

/-- A link that is made can be made with other processors too. -/
lemma connect_map {l : LinkSpec} (hok : a.connect l = .ok b) :
    (a.map f).connect l = .ok (b.map f) := by
  obtain ⟨p, q, s, hp, hq, hrun, hfields⟩ := connect_ok hok
  have hb : b.map f = { a.map f with graph := b.graph.map f } := by
    conv_lhs => rw [hfields]
    rfl
  have hedit : (a.map f).edit (Graph.link p q) = .ok (s, b.map f) := by
    have hmap := Edit.Maps.link (f := f) p q a.graph
    rw [hrun] at hmap
    rw [edit, show (a.map f).graph = a.graph.map f from rfl, hmap, hb]
  simp only [connect, resolve_map, hp, hq]
  change ((a.map f).edit (Graph.link p q) >>= fun x => pure x.2) = _
  rw [hedit]
  rfl

lemma connects_map {links : List LinkSpec} (hok : links.foldlM connect a = .ok b) :
    links.foldlM connect (a.map f) = .ok (b.map f) := by
  induction links generalizing a with
  | nil =>
      cases hok
      rfl
  | cons l links ih =>
      rw [List.foldlM_cons] at hok ⊢
      obtain ⟨c, hc, hok⟩ := bind_ok hok
      rw [connect_map hc]
      exact ih hok

lemma primes_map (f : Adapter τ → Adapter τ) (sinks : List NodeId) (g : Graph (Adapter τ)) :
    (sinks.foldl prime g).map f = sinks.foldl prime (g.map f) := by
  refine (List.foldl_hom (Graph.map f) fun g n => ?_).symm
  have hinput : ((g.map f).nodes.get? n).bind (·.inputs[0]?) =
      (g.nodes.get? n).bind (·.inputs[0]?) := by
    rw [Graph.get?_nodes_map]
    cases g.nodes.get? n <;> rfl
  rw [prime, prime, hinput]
  cases (g.nodes.get? n).bind (·.inputs[0]?) with
  | none => rfl
  | some p => exact (Graph.map_modifySlotOf f g p _).symm

/-- What is built of two descriptions that differ in the sizes of their pools alone is the
same once the pools have one buffer each. -/
lemma map_single_of_build {d₁ d₂ : Description} {a₁ a₂ : Assembly τ}
    (hsame : d₁.withoutBuffers = d₂.withoutBuffers) (h₁ : build d₁ = .ok a₁)
    (h₂ : build d₂ = .ok a₂) :
    a₁.map (Adapter.mapPool .single) = a₂.map (Adapter.mapPool .single) := by
  obtain ⟨-, g₁, wired₁, script₁, hrun₁, -, hwired₁, hscript₁, rfl⟩ := exists_parts h₁
  obtain ⟨-, g₂, wired₂, script₂, hrun₂, -, hwired₂, hscript₂, rfl⟩ := exists_parts h₂
  -- the descriptions say the same about everything else
  have hname : d₁.name = d₂.name :=
    show d₁.withoutBuffers.name = d₂.withoutBuffers.name by rw [hsame]
  have hlinks : d₁.links = d₂.links :=
    show d₁.withoutBuffers.links = d₂.withoutBuffers.links by rw [hsame]
  have hscript : d₁.script = d₂.script :=
    show d₁.withoutBuffers.script = d₂.withoutBuffers.script by rw [hsame]
  have hnamed : named 0 d₁.nodes = named 0 d₂.nodes := by
    rw [← d₁.named_withoutBuffers, hsame, d₂.named_withoutBuffers]
  have hsinks : sinksOf d₁ = sinksOf d₂ := by
    rw [← d₁.sinksOf_withoutBuffers, hsame, d₂.sinksOf_withoutBuffers]
  have hspecs : d₁.nodes.map NodeSpec.single = d₂.nodes.map NodeSpec.single := by
    rw [← d₁.map_single_withoutBuffers, hsame, d₂.map_single_withoutBuffers]
  -- so do the nodes, the links, the requests of the sinks and the script
  have hpeopled : g₁.map (Adapter.mapPool .single) = g₂.map (Adapter.mapPool .single) := by
    have hmaps₁ := maps_addSpecs (τ := τ) d₁.nodes .empty
    have hmaps₂ := maps_addSpecs (τ := τ) d₂.nodes .empty
    rw [hrun₁, hspecs] at hmaps₁
    rw [hrun₂, hmaps₁] at hmaps₂
    exact congrArg Prod.snd hmaps₂
  have hwired : wired₁.map (.mapPool .single) = wired₂.map (.mapPool .single) := by
    have hmap₁ := connects_map (f := Adapter.mapPool .single) hwired₁
    have hmap₂ := connects_map (f := Adapter.mapPool .single) hwired₂
    simp only [map, hpeopled, hname, hnamed, hsinks, hlinks] at hmap₁ hmap₂
    exact Except.ok.inj (hmap₁.symm.trans hmap₂)
  have hsteps : script₁ = script₂ := by
    have hnodes : wired₁.nodes = wired₂.nodes := congrArg (·.nodes) hwired
    simp only [hnodes, hscript] at hscript₁ hscript₂
    exact Except.ok.inj (hscript₁.symm.trans hscript₂)
  rcases wired₁ with ⟨name₁, w₁, nodes₁, sinkNodes₁, _, retired₁⟩
  rcases wired₂ with ⟨name₂, w₂, nodes₂, sinkNodes₂, _, retired₂⟩
  simp only [map, Assembly.mk.injEq] at hwired
  obtain ⟨rfl, hw, rfl, rfl, -, rfl⟩ := hwired
  simp only [map, primes_map, hw, hsteps, hnamed, hsinks]

end Assembly

/-! ### Activations one after the other -/

namespace Graph

variable {τ : Type} [Processor τ] {g : Graph (Adapter τ)} {a : Assembly τ} {d : Description}

/-- What activations leave of a graph, one after the other, each with the turns that it
may take. -/
def replay (g : Graph (Adapter τ)) (requests : List (Nat × Mode × NodeId)) :
    Graph (Adapter τ) :=
  requests.foldl (fun g (budget, mode, n) => (g.activate budget mode n).graph) g

lemma replay_concat (requests : List (Nat × Mode × NodeId)) (budget : Nat) (mode : Mode)
    (n : NodeId) : g.replay (requests ++ [(budget, mode, n)]) =
      ((g.replay requests).activate budget mode n).graph := by
  rw [replay, List.foldl_append]
  rfl

lemma activated_replay (g : Graph (Adapter τ)) (requests : List (Nat × Mode × NodeId)) :
    g.Activated (fun _ _ _ => True) (g.replay requests) := by
  induction requests using List.reverseRecOn with
  | nil => exact .start
  | append_singleton requests request ih =>
      obtain ⟨budget, mode, n⟩ := request
      rw [replay_concat]
      exact .activate budget ih trivial

/-- Activations of a built graph do the same to the graph with pools of one buffer. -/
lemma activate_single (hok : Assembly.build d = .ok a)
    (hg : a.graph.Activated (fun _ _ _ => True) g) (budget : Nat) (mode : Mode) (n : NodeId) :
    (g.map (Adapter.mapPool .single)).activate budget mode n =
      (g.activate budget mode n).map (Adapter.mapPool .single) :=
  map_activate (fun hn ht => ((hg.lending hok).2 hn ht).mimics) budget

lemma replay_single (hok : Assembly.build d = .ok a) (requests : List (Nat × Mode × NodeId)) :
    (a.graph.map (Adapter.mapPool .single)).replay requests =
      (a.graph.replay requests).map (Adapter.mapPool .single) := by
  induction requests using List.reverseRecOn with
  | nil => rfl
  | append_singleton requests request ih =>
      obtain ⟨budget, mode, n⟩ := request
      rw [replay_concat, replay_concat, ih,
        activate_single hok (activated_replay _ requests)]
      rfl

/-- No output names another buffer than the least of a pool, and every producer lent what
its output names. -/
structure LendsOne (g : Graph (Adapter τ)) : Prop where
  named : ∀ {p c b}, g.slotOf? p = some c → c.buffer = some b → b = ⟨0⟩
  lent : ∀ {n x pool}, g.processor? n = some x → x.pool? = some pool →
    ∃ o, g.buffersOf n = [o] ∧ pool.lent = (o.map (·.index)).toFinset

omit [Processor τ] in
lemma Lending.lendsOne (h : g.Lending) : g.LendsOne where
  named := h.named
  lent hx hpool := by
    obtain ⟨o, ho, hlends⟩ := h.lends hx hpool
    exact ⟨o, ho, hlends.lent⟩

end Graph

/-- An adapter of which it is not known what its pool holds. -/
def Adapter.withoutPool {τ : Type} : Adapter τ → Adapter τ := mapPool fun _ => .ofSize 1

lemma Adapter.withoutPool_comp {τ : Type} (f : BufferPool → BufferPool) :
    (withoutPool ∘ mapPool f : Adapter τ → Adapter τ) = withoutPool := by
  funext x
  cases x <;> rfl

namespace Assembly

variable {τ : Type}

/-- Tallies do not depend on pools. -/
lemma sinks_map (a : Assembly τ) (f : BufferPool → BufferPool) :
    (a.map (Adapter.mapPool f)).sinks = a.sinks := by
  have htally : ∀ n, (a.map (Adapter.mapPool f)).tally? n = a.tally? n := by
    intro n
    rw [tally?, tally?, show (a.map (Adapter.mapPool f)).graph =
      a.graph.map (Adapter.mapPool f) from rfl, Graph.get?_nodes_map]
    cases a.graph.nodes.get? n with
    | none => rfl
    | some node =>
        change (node.processor.mapPool f).sink? = node.processor.sink?
        cases node.processor <;> rfl
  simp only [sinks, htally]
  rfl

/-- Two graphs built of descriptions that differ in the sizes of their pools alone cannot
be told apart by activations: each ends in the same way after the same calls, and they
leave the same behind, except for the pools. Producers never lend more than one buffer at
a time, the one with the least name, and have lent what their outputs name. -/
theorem pools_irrelevant [Processor τ] {d₁ d₂ : Description} {a₁ a₂ : Assembly τ}
    (hsame : d₁.withoutBuffers = d₂.withoutBuffers) (h₁ : build d₁ = .ok a₁)
    (h₂ : build d₂ = .ok a₂) (requests : List (Nat × Mode × NodeId)) :
    let b₁ : Assembly τ := { a₁ with graph := a₁.graph.replay requests }
    let b₂ : Assembly τ := { a₂ with graph := a₂.graph.replay requests }
    b₁.map .withoutPool = b₂.map .withoutPool ∧ b₁.sinks = b₂.sinks ∧
      (∀ budget mode n, (b₁.graph.activate budget mode n).map Adapter.withoutPool =
        (b₂.graph.activate budget mode n).map Adapter.withoutPool) ∧
      ∀ g ∈ [b₁.graph, b₂.graph], g.LendsOne ∧
        ∀ {n node mode t}, g.nodes.get? n = some node →
          (g.start mode n).TakesTurns t → t.LendsOne := by
  intro b₁ b₂
  have hbuilt := map_single_of_build hsame h₁ h₂
  have hactivated₁ := Graph.activated_replay a₁.graph requests
  have hactivated₂ := Graph.activated_replay a₂.graph requests
  have hreplay : b₁.graph.map (Adapter.mapPool .single) =
      b₂.graph.map (Adapter.mapPool .single) := by
    rw [← Graph.replay_single h₁, ← Graph.replay_single h₂]
    exact congrArg (fun a => a.graph.replay requests) hbuilt
  have hrun : b₁.map (.mapPool .single) = b₂.map (.mapPool .single) := by
    change ({ a₁.map (.mapPool .single) with
      graph := b₁.graph.map (Adapter.mapPool .single) } : Assembly τ) = _
    rw [hbuilt, hreplay]
    rfl
  have hactivate : ∀ budget mode n,
      (b₁.graph.activate budget mode n).map (Adapter.mapPool .single) =
        (b₂.graph.activate budget mode n).map (Adapter.mapPool .single) := by
    intro budget mode n
    rw [← Graph.activate_single h₁ hactivated₁, ← Graph.activate_single h₂ hactivated₂,
      hreplay]
  refine ⟨?_, ?_, fun budget mode n => ?_, ?_⟩
  · rw [← Adapter.withoutPool_comp .single, ← map_map, hrun, map_map]
  · rw [← sinks_map b₁ .single, hrun, sinks_map]
  · rw [← Adapter.withoutPool_comp .single, ← Graph.map_map_activation, hactivate,
      Graph.map_map_activation]
  · simp only [List.forall_mem_cons, List.not_mem_nil, false_imp_iff, implies_true, and_true]
    obtain ⟨hlending₁, hturns₁⟩ := hactivated₁.lending h₁
    obtain ⟨hlending₂, hturns₂⟩ := hactivated₂.lending h₂
    exact ⟨⟨hlending₁.lendsOne, fun hn ht => (hturns₁ hn ht).lendsOne⟩,
      hlending₂.lendsOne, fun hn ht => (hturns₂ hn ht).lendsOne⟩

/-- Two sources are mixed, and every pool has one buffer. -/
def scanty : Description :=
  { Catalogue.fanIn with nodes := Catalogue.fanIn.nodes.map fun spec =>
      if spec.kind = .sink then spec else spec.single }

/-- The pull of the sink after one of the sources was pushed. -/
theorem pools_irrelevant_fanIn : ∃ a₁ a₂ : Assembly Empty,
    Catalogue.fanIn.withoutBuffers = scanty.withoutBuffers ∧
      build Catalogue.fanIn = .ok a₁ ∧ build scanty = .ok a₂ ∧
      ((a₁.graph.replay [(Graph.turnLimit, .push, ⟨0⟩)]).pull ⟨3⟩).map Adapter.withoutPool =
        ((a₂.graph.replay [(Graph.turnLimit, .push, ⟨0⟩)]).pull ⟨3⟩).map
          Adapter.withoutPool := by
  have hsame : Catalogue.fanIn.withoutBuffers = scanty.withoutBuffers := by decide
  obtain ⟨a₁, h₁, -⟩ := Catalogue.exists_build (d := Catalogue.fanIn) (by simp [Catalogue.all])
  have hsome : (build (τ := Empty) scanty).toOption.isSome = true := by decide +kernel
  cases h₂ : build (τ := Empty) scanty with
  | error e => simp [h₂, Except.toOption] at hsome
  | ok a₂ =>
      exact ⟨a₁, a₂, hsame, h₁, rfl,
        (pools_irrelevant hsame h₁ h₂ [(Graph.turnLimit, .push, ⟨0⟩)]).2.2.1 _ .pull ⟨3⟩⟩

end Assembly

end MediaGraph

/-
Built graphs are made by actions, and have the links of their description.

* `Edit.Keeps`: an edit that is carried out keeps a property of the graph;
* `Assembly.exists_actions`: a built graph is one that a client can make;
* `Assembly.tidy_of_build`: so its ports, links and slots belong together;
* `Graph.feeds_of_link`: a new link feeds its input, and so do the links that
  were there before;
* `Assembly.feeds_of_linked`: every link of the description is one of the graph
  that is built from it.
-/
import MediaGraph.Proofs.Building
import MediaGraph.Proofs.History
import MediaGraph.Proofs.Observation
import MediaGraph.Proofs.Structure

namespace MediaGraph

/-! ### Edits that keep a property -/

/-- An edit that is carried out keeps a property of the graph. -/
def Edit.Keeps {σ α : Type} (P : Graph σ → Prop) (e : Edit σ α) : Prop :=
  ∀ ⦃g g' : Graph σ⦄ ⦃x : α⦄, P g → e.run g = (.ok x, g') → P g'

namespace Edit.Keeps

variable {σ α β : Type} {P : Graph σ → Prop}

lemma pure (x : α) : (Pure.pure x : Edit σ α).Keeps P := by
  intro g g' y h hok
  obtain ⟨-, rfl⟩ := Edit.run_pure_ok hok
  exact h

lemma bind {e : Edit σ α} {f : α → Edit σ β} (he : e.Keeps P)
    (hf : ∀ x, (f x).Keeps P) : (e >>= f).Keeps P := by
  intro g g' y h hok
  obtain ⟨x, g₁, hx, hy⟩ := Edit.run_bind_ok hok
  exact hf x (he h hx) hy

lemma forM_range {f : ℕ → Edit σ PUnit} (hf : ∀ i, (f i).Keeps P) (k : ℕ) :
    ((List.range k).forM f).Keeps P := by
  intro g g' u h hok
  exact Edit.run_forM_range (P := fun _ => P) hok h
    fun i _ g g' hg hi => hf i hg hi

lemma mapM {f : α → Edit σ β} (hf : ∀ x, (f x).Keeps P) (l : List α) :
    (l.mapM f).Keeps P := by
  induction l with
  | nil => exact .pure []
  | cons x l ih =>
      rw [List.mapM_cons]
      exact .bind (hf x) fun y => .bind ih fun ys => .pure (y :: ys)

end Edit.Keeps

/-! ### Built graphs are made by actions -/

namespace Assembly

variable {τ : Type} [Processor τ] {P : Graph (Adapter τ) → Prop}
  {d : Description} {a : Assembly τ}

omit [Processor τ] in
/-- The request of a sink writes one slot. -/
lemma exists_prime_eq (g : Graph (Adapter τ)) (n : NodeId) :
    prime g n = g ∨ ∃ p c, prime g n = g.modifySlotOf p fun _ => c := by
  rw [prime]
  split
  · rename_i p _
    rcases hs : g.slotId? p with _ | s
    · exact Or.inl (by rw [Graph.modifySlotOf, hs])
    · refine Or.inr ⟨p, (g.slots.get? s).elim {} Slot.request, ?_⟩
      simp only [Graph.modifySlotOf, hs]
      congr 1
      refine Arena.ext_get? (by simp) fun s' => ?_
      simp only [Arena.get?_modify]
      split
      · rename_i hs'
        rw [← hs']
        rcases g.slots.get? s with _ | c <;> rfl
      · rfl
  · exact Or.inl rfl

omit [Processor τ] in
/-- Adding the nodes of a description keeps what adding nodes and ports and changing
settings keep. -/
lemma keeps_addSpecs (hnode : ∀ x, (Graph.addNode x).Keeps P)
    (hport : ∀ n dir flags, (Graph.addPort n dir flags).Keeps P)
    (hflags : ∀ n flags, (Graph.setFlags n flags).Keeps P)
    (hrequired : ∀ n k, (Graph.setRequiredIn n k).Keeps P) (specs : List NodeSpec) :
    (addSpecs (τ := τ) specs).Keeps P := by
  have hspec : ∀ spec, (addSpec (τ := τ) spec).Keeps P := by
    intro spec
    refine .bind (hnode _) fun n => .bind (.forM_range (fun i => ?_) _) fun _ =>
      .bind (.forM_range (fun i => ?_) _) fun _ => ?_
    · exact .bind (hport n _ _) fun _ => .pure _
    · exact .bind (hport n _ _) fun _ => .pure _
    · split
      · rename_i k _
        have hlast := Edit.Keeps.bind (hrequired n k) fun _ => .pure n
        split
        · exact .bind (hflags n _) fun _ => hlast
        · exact hlast
      · split
        · exact .bind (hflags n _) fun _ => .pure n
        · exact .pure n
  exact .mapM (fun spec => .bind (hspec spec) fun n => .pure (spec.name, n)) specs

/-- What every action keeps holds of a built graph. -/
lemma build_induction (h₀ : P .empty)
    (hstep : ∀ (e : Action (Adapter τ)) (g : Graph (Adapter τ)), P g →
      P (e.perform g).2)
    (hok : build d = .ok a) : P a.graph := by
  have hnode : ∀ x, (Graph.addNode x).Keeps P := fun x g g' n h hok => by
    simpa [Action.perform, Action.snd_issue, hok] using hstep (.addNode x) g h
  have hport : ∀ n dir flags, (Graph.addPort n dir flags).Keeps P :=
    fun n dir flags g g' p h hok => by
      simpa [Action.perform, Action.snd_issue, hok] using
        hstep (.addPort n dir flags) g h
  have hflags : ∀ n flags, (Graph.setFlags n flags).Keeps P :=
    fun n flags g g' u h hok => by
      simpa [Action.perform, hok] using hstep (.setFlags n flags) g h
  have hrequired : ∀ n k, (Graph.setRequiredIn n k).Keeps P :=
    fun n k g g' u h hok => by
      simpa [Action.perform, hok] using hstep (.setRequiredIn n k) g h
  -- the links, one after the other
  have hconnects : ∀ (links : List LinkSpec) {a a' : Assembly τ}, P a.graph →
      links.foldlM connect a = .ok a' → P a'.graph := by
    intro links
    induction links with
    | nil =>
        intro a a' h hok
        cases hok
        exact h
    | cons l links ih =>
        intro a a' h hok
        rw [List.foldlM_cons] at hok
        obtain ⟨b, hb, hok⟩ := bind_ok hok
        obtain ⟨p, q, s, -, -, hlink, -⟩ := connect_ok hb
        refine ih ?_ hok
        simpa [Action.perform, Action.snd_issue, hlink] using hstep (.link p q) a.graph h
  -- the requests of the sinks
  have hprimes : ∀ (sinks : List NodeId) {g : Graph (Adapter τ)}, P g →
      P (sinks.foldl prime g) := by
    intro sinks
    induction sinks with
    | nil => exact fun h => h
    | cons n sinks ih =>
        intro g h
        refine ih ?_
        rcases exists_prime_eq g n with hg | ⟨p, c, hg⟩
        · rwa [hg]
        · rw [hg]
          exact hstep (.writeSlot p c) g h
  obtain ⟨-, g, wired, script, hrun, -, hwired, -, rfl⟩ := exists_parts hok
  exact hprimes _ (hconnects d.links
    (keeps_addSpecs hnode hport hflags hrequired d.nodes h₀ hrun) hwired)

/-- A built graph is one that a client can make. -/
theorem exists_actions (hok : build d = .ok a) :
    ∃ actions : List (Action (Adapter τ)), a.graph = Action.graph actions :=
  build_induction (P := fun g => ∃ actions, g = Action.graph actions) ⟨[], rfl⟩
    (fun e _ ⟨actions, hg⟩ => ⟨actions ++ [e], by rw [Action.graph_concat, hg]⟩)
    hok

/-- The ports, links and slots of a built graph belong together. -/
lemma tidy_of_build (hok : build d = .ok a) : a.graph.Tidy := by
  obtain ⟨actions, hg⟩ := exists_actions hok
  rw [hg]
  exact Action.tidy_graph actions

end Assembly

/-- Activations keep a graph tidy. -/
lemma Graph.Activated.tidy {σ : Type} [Processor σ] {g₀ g : Graph σ}
    {allowed : Mode → NodeId → Except ActivationError Unit → Prop}
    (h : g₀.Activated allowed g) (h₀ : g₀.Tidy) : g.Tidy := by
  induction h with
  | start => exact h₀
  | activate budget _ _ ih => exact ih.activate budget _ _

/-! ### Links of the description -/

namespace Graph

variable {σ : Type} {g g' : Graph σ} {p q : PortId} {s : SlotId} {x c : NodeId}

/-- A new link feeds its input, and so do the links that were there before. -/
lemma feeds_of_link (h : g.WellFormed) (hok : (Graph.link p q).run g = (.ok s, g')) :
    (g.Feeds x c → g'.Feeds x c) ∧ ∀ out inp, g.ports.get? p = some out →
      g.ports.get? q = some inp → g'.Feeds out.owner inp.owner := by
  obtain ⟨out, inp, hmade, -⟩ := h.makesLink hok
  have hinputs : ∀ n, g'.inputsOf n = g.inputsOf n := by
    intro n
    rw [inputsOf, inputsOf, hmade.nodes]
  have howner : ∀ {x : PortId} {n : NodeId},
      (g.ports.get? x).map (·.owner) = some n →
        (g'.ports.get? x).map (·.owner) = some n := by
    intro x n hx
    obtain ⟨port, hport, rfl⟩ := Option.map_eq_some_iff.mp hx
    obtain ⟨port', hport', hown, -⟩ := hmade.exists_port hport
    rw [hport', Option.map_some, hown]
  constructor
  · rintro ⟨r, hr, hf⟩
    obtain ⟨r', hr', hx⟩ := Option.bind_eq_some_iff.mp hf
    refine ⟨r, by rwa [hinputs], ?_⟩
    rw [feeder?, hmade.peer?_of_some hr', Option.bind_some, howner hx]
  · intro out' inp' hp' hq'
    obtain rfl := Option.some.inj (hmade.output.symm.trans hp')
    obtain rfl := Option.some.inj (hmade.input.symm.trans hq')
    refine ⟨q, ?_, ?_⟩
    · rw [hinputs, h.shows.inputsOf_eq]
      exact h.layout.mem_portsOf.mpr ⟨_, h.shows.port hq', rfl, hmade.isInput⟩
    · rw [feeder?, hmade.peer?_eq, if_pos rfl, Option.bind_some]
      exact howner (by rw [hp', Option.map_some])

/-- A write to a slot changes no link. -/
lemma feeds_modifySlotOf (g : Graph σ) (p : PortId) (f : Slot → Slot) :
    (g.modifySlotOf p f).Feeds x c ↔ g.Feeds x c := by
  rw [modifySlotOf]
  split <;> rfl

end Graph

namespace Assembly

variable {τ : Type} {d : Description} {a a' : Assembly τ}

/-- The links that are made feed the inputs that they name, and so do those that
were there before. -/
lemma feeds_of_connects (hd : d.Accepted) {links : List LinkSpec}
    (hl : ∀ l ∈ links, l ∈ d.links)
    (h : a.graph.Follows (d.nodes.map NodeSpec.plan) d.Linked fun _ => false)
    (hn : a.nodes = named 0 d.nodes) (hsize : a.graph.ports.size ≤ Handle.bound)
    (hok : links.foldlM connect a = .ok a') :
    (∀ x c, a.graph.Feeds x c → a'.graph.Feeds x c) ∧
      ∀ l ∈ links, ∀ p q, d.resolve .output l.source = .ok p →
        d.resolve .input l.target = .ok q → a'.graph.Feeds ⟨p.node⟩ ⟨q.node⟩ := by
  induction links generalizing a with
  | nil =>
      cases hok
      exact ⟨fun _ _ h => h, by simp⟩
  | cons l links ih =>
      rw [List.foldlM_cons] at hok
      obtain ⟨b, hb, hok⟩ := bind_ok hok
      obtain ⟨hfollows, hfields⟩ := follows_connect hd h hn hsize (hl l (by simp)) hb
      obtain ⟨hkeep, hnew⟩ := ih (fun l h => hl l (by simp [h])) hfollows
        (by rw [hfields]; exact hn) (by rwa [size_ports_connect hb]) hok
      obtain ⟨ends, p, q, s, hends, hp, hq, hlink⟩ :=
        exists_ends_of_connect hd h hn hsize hb
      refine ⟨fun x y hxy => hkeep x y ((Graph.feeds_of_link h.wf hlink).1 hxy),
        fun l' hl' source target hsource htarget => ?_⟩
      rcases List.mem_cons.mp hl' with rfl | hl'
      · obtain rfl := Except.ok.inj (hends.1.symm.trans hsource)
        obtain rfl := Except.ok.inj (hends.2.symm.trans htarget)
        obtain ⟨out, hout, hpo, -⟩ := h.wf.portAt?_eq_some hp
        obtain ⟨inp, hinp, hqo, -⟩ := h.wf.portAt?_eq_some hq
        rw [← hpo, ← hqo]
        exact hkeep _ _ ((Graph.feeds_of_link (x := out.owner) (c := inp.owner) h.wf
          hlink).2 out inp hout hinp)
      · exact hnew l' hl' source target hsource htarget

/-- Every link of a description is one of the graph that is built from it. -/
theorem feeds_of_linked (hok : build d = .ok a) {i j : Nat} (hij : d.Linked i j) :
    a.graph.Feeds ⟨i⟩ ⟨j⟩ := by
  obtain ⟨hvalid, g, wired, script, hrun, hsize, hwired, -, rfl⟩ := exists_parts hok
  obtain ⟨-, h₁⟩ := follows_addSpecs
    (Graph.follows_empty d.Linked fun _ => false) hrun
  obtain ⟨-, hnew⟩ := feeds_of_connects (Description.accepted_of_validate hvalid)
    (fun l hl => hl) (by simpa using h₁) rfl hsize hwired
  obtain ⟨l, hl, p, q, hp, hq, rfl, rfl⟩ := hij
  -- the requests of the sinks change no link
  have hprimes : ∀ (sinks : List NodeId) (g : Graph (Adapter τ)) (x c : NodeId),
      g.Feeds x c → (sinks.foldl prime g).Feeds x c := by
    intro sinks
    induction sinks with
    | nil => exact fun _ _ _ h => h
    | cons n sinks ih =>
        intro g x c h
        refine ih _ x c ?_
        rcases exists_prime_eq g n with hg | ⟨p, k, hg⟩
        · rwa [hg]
        · rwa [hg, Graph.feeds_modifySlotOf]
  exact hprimes _ _ _ _ (hnew l hl p q hp hq)

end Assembly

end MediaGraph

/-
Which thresholds a description can be accepted with, and which of them can be met.

* `NodeSpec.requirable`: how many inputs of a described node are not optional;
* `Tidy.input_not_called`: a node that requires more inputs than it has that are not
  optional is never called for its inputs;
* `Network.foldl_announce`: announcements of data on some inputs of a node count them
  one by one, and the last one queues the node if as many are counted as it requires;
* `Graph.Meets`: what that comes to in a new round of a node;
* `Assembly.threshold_met_iff`: an accepted threshold lies between one and the number of
  inputs, and it can be met exactly if it is at most the number of inputs that are not
  optional, which an override need not be.
-/
import MediaGraph.Proofs.Construction
import MediaGraph.Proofs.Requirements
import MediaGraph.Proofs.Thresholds

namespace MediaGraph

variable {σ : Type}

/-! ### Descriptions -/

/-- The number of inputs that are not optional. -/
def NodeSpec.requirable (spec : NodeSpec) : Nat :=
  (List.range spec.inputCount).countP fun i => !spec.isOptional i

/-- A threshold is at most the number of inputs that are not optional exactly if no
override exceeds that number. -/
lemma NodeSpec.requiredCount_le_requirable_iff (spec : NodeSpec) :
    spec.requiredCount ≤ spec.requirable ↔
      ∀ k, spec.requiredIn = some k → k ≤ spec.requirable := by
  rcases hk : spec.requiredIn with _ | k
  · simp [requiredCount, requirable, hk]
  · simp [requiredCount, hk]

namespace Description.Realized

variable {d : Description} {N : Network} {n : NodeId} {spec : NodeSpec}

/-- The inputs of a node that are not optional are those of its description. -/
lemma countP_inputs (h : d.Realized N) (hn : d.nodes[n.index]? = some spec) :
    ((N.inputs n).countP fun p => !N.optional p) = spec.requirable := by
  have hmap : (N.inputs n).map N.optional =
      (List.range spec.inputCount).map spec.isOptional := by
    refine List.ext_getElem? fun k => ?_
    rw [List.getElem?_map, List.getElem?_map]
    rcases hp : (N.inputs n)[k]? with _ | p
    · rw [List.getElem?_eq_none_iff, h.inputs hn] at hp
      simp [hp]
    · have hk : k < spec.inputCount := by
        rw [← h.inputs hn]
        exact (List.getElem?_eq_some_iff.mp hp).1
      simp [hk, h.optional hn hp]
  have hcount := congrArg (List.countP fun b => !b) hmap
  rwa [List.countP_map, List.countP_map] at hcount

end Description.Realized

/-! ### Thresholds that are not met -/

namespace Graph

variable {g : Graph σ} {Λ : Layout} {D : Option NodeId} {s : Flow σ} {n m : NodeId}

lemma Shows.requirement_eq (h : g.Shows Λ D s) (n : NodeId) :
    g.requirement n = Λ.network.required n := by
  rw [requirement_eq_layout, h.layout]
  rfl

lemma Shows.requiredInputs_eq (hΛ : Λ.Proper) (h : g.Shows Λ D s) (n : NodeId) :
    g.requiredInputs n = (Λ.network.inputs n).countP fun p => !Λ.network.optional p := by
  rw [requiredInputs, h.inputsOf_eq]
  exact List.countP_congr fun p hp => by rw [Graph.isRequired, h.isRequired_eq hΛ hp]

/-- A node that requires more inputs than it has that are not optional is never called
for its inputs: only these are counted. -/
theorem Tidy.input_not_called [Processor σ] (htidy : g.Tidy) (htallied : g.Tallied)
    (hlt : g.requiredInputs n < g.requirement n) {budget : Nat} {mode : Mode}
    {c : Callback} (hc : c ∈ (g.activate budget mode m).callbacks) :
    ¬ (c.node = n ∧ c.side = .input) := by
  rintro ⟨rfl, hside⟩
  obtain ⟨t, turn, ht, hturn, hcall⟩ := exists_turn_of_mem_activate hc
  obtain ⟨s, hs, hst⟩ := htallied.exists_start htidy mode m
  obtain ⟨u, hu, hut⟩ := ht.shows htidy.layout hs hst
  obtain ⟨k, hqueued, hturned⟩ := hu.turn? htidy.layout hturn
  obtain ⟨rfl, hphase⟩ := Network.phase_of_callback (hturned.callback.symm.trans hcall)
  rw [hside] at hphase
  obtain ⟨-, hcomplete⟩ := hut.complete hqueued hphase
  have hready := hut.ready_le c.node
  have hcountable := List.countP_mono_left
    (l := g.layout.network.inputs c.node) (p := fun p =>
      (g.layout.network.feeder p).isSome && !g.layout.network.optional p)
    (q := fun p => !g.layout.network.optional p) fun p _ hp => (Bool.and_eq_true_iff.mp hp).2
  rw [htidy.shows.requirement_eq, htidy.shows.requiredInputs_eq htidy.layout] at hlt
  omega

end Graph

/-! ### Thresholds that are met -/

namespace Network

variable {N : Network} {c : NodeId} {s : Flow σ} {ps : List PortId}

/-- Data on inputs that are not optional and were not counted before is announced. All of
these inputs are counted, and the node waits to process its inputs exactly if as many are
counted then as it requires. -/
lemma foldl_announce (hN : N.Proper) (hnodup : ps.Nodup)
    (hps : ∀ p ∈ ps, p ∈ N.inputs c ∧ N.optional p = false ∧ s.counted p = false ∧
      s.full p = true) :
    (ps.foldl N.announce s).ready c = s.ready c + ps.length ∧
    (∀ q, q ∉ ps → (ps.foldl N.announce s).counted q = s.counted q) ∧
    (ps.foldl N.announce s).slot = s.slot ∧
    (ps ≠ [] → (ps.foldl N.announce s).queued c =
        decide (0 < N.required c ∧ s.ready c + ps.length = N.required c) ∧
      ((ps.foldl N.announce s).queued c = true →
        (ps.foldl N.announce s).phase c = .input)) := by
  induction ps using List.reverseRecOn with
  | nil => exact ⟨rfl, fun _ _ => rfl, rfl, fun h => absurd rfl h⟩
  | append_singleton ps p ih =>
      obtain ⟨hnodup', -, hnotin⟩ := List.nodup_append.mp hnodup
      obtain ⟨hready, hcounted, hslot, -⟩ :=
        ih hnodup' fun q hq => hps q (List.mem_append_left _ hq)
      obtain ⟨hp, hoptional, hfresh, hfull⟩ := hps p (by simp)
      have hpps : p ∉ ps := fun hmem => hnotin p hmem p (by simp) rfl
      simp only [List.foldl_append, List.foldl_cons, List.foldl_nil]
      generalize ps.foldl N.announce s = t at hready hcounted hslot
      -- the last announcement finds new data
      have hnew : N.isNew t p = true := by
        simp [isNew, hoptional, hcounted p hpps, hfresh, Flow.full, hslot,
          show (s.slot p).hasData = true from hfull]
      have hafter : N.readyAfter t c p = s.ready c + (ps ++ [p]).length := by
        rw [readyAfter, hnew, if_pos rfl, hready, List.length_append,
          List.length_singleton, Nat.add_assoc]
      rw [announce_eq N hN hp]
      refine ⟨?_, fun q hq => ?_, hslot, fun _ => ⟨?_, fun hwaits => ?_⟩⟩
      · simp only [Function.update_self, hafter]
      · rw [List.mem_append, not_or, List.mem_singleton] at hq
        simp only [Function.update_of_ne hq.2, hcounted q hq.1]
      · simp only [Function.update_self, completes, hafter]
      · simp only [Function.update_self] at hwaits
        simp only [hwaits, if_true, Function.update_self]

end Network

namespace Graph

variable {g : Graph σ} {n : NodeId}

/-- In a new round of a node data on these inputs of it is announced. All of them are
counted, and if they are as many as the node requires, and only then, it waits for its
turn, which calls it for its inputs. -/
structure Meets [Processor σ] (g : Graph σ) (n : NodeId) (ps : List PortId)
    (node : Node σ) : Prop where
  live : (ps.foldl announce (g.resetReady n)).nodes.get? n = some node
  readyIn : node.readyIn = ps.length
  waits_iff : (ps.foldl announce (g.resetReady n)).ready.contains n = true ↔
    ps.length = g.requirement n
  called : ps.length = g.requirement n →
    ∃ r, ((ps.foldl announce (g.resetReady n)).serve n node).callback = some ⟨n, .input, r⟩

/-- The turn of a node that waits to process its inputs calls it for them. -/
lemma callback_serve_input [Processor σ] {node : Node σ} (h : node.phase = .input) :
    ∃ r, (g.serve n node).callback = some ⟨n, .input, r⟩ := by
  unfold serve
  rw [h]
  simp only
  rcases g.callback n node .input with ⟨_ | _, g'⟩
  · exact ⟨_, rfl⟩
  · exact ⟨_, rfl⟩

/-- Announcing data on inputs that are not optional counts them. -/
theorem Tidy.meets [Processor σ] (h : g.Tidy) {ps : List PortId} (hne : ps ≠ [])
    (hnodup : ps.Nodup) (hps : ∀ p ∈ ps, p ∈ g.inputsOf n ∧ g.isRequired p = true ∧
      g.hasData p = true) : ∃ node, g.Meets n ps node := by
  obtain ⟨old, hold⟩ : ∃ node, g.nodes.get? n = some node := by
    obtain ⟨p, hp⟩ := List.exists_mem_of_ne_nil ps hne
    have hmem := (hps p hp).1
    rcases hn : g.nodes.get? n with _ | node
    · simp [inputsOf, hn] at hmem
    · exact ⟨node, rfl⟩
  -- the inputs as the network sees them in the new round
  have hinputs : ∀ p ∈ ps, p ∈ g.layout.network.inputs n ∧
      g.layout.network.optional p = false ∧ (g.layout.network.feeder p).isSome = true ∧
      g.flow.full p = true := by
    intro p hp
    obtain ⟨hmem, hreq, hdata⟩ := hps p hp
    rw [h.shows.inputsOf_eq] at hmem
    rw [Graph.isRequired, h.shows.isRequired_eq h.layout hmem, Bool.not_eq_true'] at hreq
    rw [h.shows.hasData_eq h.layout hmem, Bool.and_eq_true] at hdata
    exact ⟨hmem, hreq, hdata⟩
  have hreset := h.shows.resetReady h.layout (h.shows.node hold)
  have hafter : (ps.foldl announce (g.resetReady n)).Shows g.layout g.driver
      (ps.foldl g.layout.network.announce (g.layout.network.reset n g.flow)) :=
    hreset.foldl fun p hp _ _ hs =>
      hs.announce h.layout (hinputs p hp).1 (hinputs p hp).2.2.1
  obtain ⟨hready, -, -, hlast⟩ := Network.foldl_announce h.layout.network
    (s := g.layout.network.reset n g.flow) hnodup fun p hp => by
      obtain ⟨hmem, hoptional, -, hfull⟩ := hinputs p hp
      exact ⟨hmem, hoptional, by simp [Network.reset, hmem], hfull⟩
  obtain ⟨hqueued, hphase⟩ := hlast hne
  obtain ⟨node, hnode, -⟩ := hafter.exists_node (h.shows.node hold)
  have hzero : (g.layout.network.reset n g.flow).ready n = 0 := by simp [Network.reset]
  have hwaits : (ps.foldl announce (g.resetReady n)).ready.contains n = true ↔
      ps.length = g.requirement n := by
    have hpos := List.length_pos_iff.mpr hne
    rw [hafter.contains_eq, hqueued, hzero, Nat.zero_add, decide_eq_true_eq,
      h.shows.requirement_eq]
    omega
  refine ⟨node, hnode, ?_, hwaits, fun hlength => callback_serve_input ?_⟩
  · rw [← hafter.ready_eq hnode, hready, hzero, Nat.zero_add]
  · rw [← hafter.phase_eq hnode]
    exact hphase (by rw [← hafter.contains_eq]; exact hwaits.mpr hlength)

end Graph

/-! ### Built graphs -/

/-- Activations of a graph that a client can make leave one that a client can make. -/
lemma Graph.Activated.exists_append [Processor σ] {actions : List (Action σ)} {g : Graph σ}
    {allowed : Mode → NodeId → Except ActivationError Unit → Prop}
    (h : (Action.graph actions).Activated allowed g) :
    ∃ more, g = Action.graph (actions ++ more) := by
  induction h with
  | start => exact ⟨[], by rw [List.append_nil]⟩
  | @activate _ mode n budget _ _ ih =>
      obtain ⟨more, rfl⟩ := ih
      refine ⟨more ++ [.activate budget mode n], ?_⟩
      rw [← List.append_assoc, Action.graph_concat]
      rfl

/-- Activations change neither what a node requires nor which inputs it has. -/
lemma Graph.Activated.sameDemand [Processor σ] {g₀ g : Graph σ}
    {allowed : Mode → NodeId → Except ActivationError Unit → Prop}
    (h : g₀.Activated allowed g) (h₀ : g₀.Tidy) (n : NodeId) : g₀.SameDemand g n := by
  induction h with
  | start => exact .refl g₀ n
  | activate budget hg _ ih => exact ih.trans ((hg.tidy h₀).sameDemand_activate budget _ _)

namespace Assembly

variable {τ : Type} [Processor τ] {d : Description} {a : Assembly τ} {i : Nat}
  {spec : NodeSpec}

/-- A node with inputs of an accepted description requires at least one and at most as
many as it has. It requires no more than it has that are not optional exactly if no
override says otherwise. If it requires more then it is never called for its inputs, in
any activation after any others. Whenever some of its inputs that are not optional hold
data, and as many as it requires, announcing them in a new round lets it process its
inputs; with fewer or more of them it does not wait for that. -/
theorem threshold_met_iff (hok : build d = .ok a) (hi : d.nodes[i]? = some spec)
    (hin : 0 < spec.inputCount) :
    (1 ≤ a.graph.requirement ⟨i⟩ ∧ a.graph.requirement ⟨i⟩ ≤ spec.inputCount ∧
      a.graph.requiredInputs ⟨i⟩ = spec.requirable) ∧
    (a.graph.requirement ⟨i⟩ ≤ a.graph.requiredInputs ⟨i⟩ ↔
      ∀ k, spec.requiredIn = some k → k ≤ spec.requirable) ∧
    ∀ g, a.graph.Activated (fun _ _ _ => True) g →
      (a.graph.requiredInputs ⟨i⟩ < a.graph.requirement ⟨i⟩ →
        ∀ budget mode m, ∀ c ∈ (g.activate budget mode m).callbacks,
          ¬ (c.node = ⟨i⟩ ∧ c.side = .input)) ∧
      ∀ ps, ps ≠ [] → ps.Nodup → (∀ p ∈ ps, p ∈ g.inputsOf ⟨i⟩ ∧
          g.isRequired p = true ∧ g.hasData p = true) →
        ∃ node, g.Meets ⟨i⟩ ps node := by
  obtain ⟨Λ, s, hΛ, hs, hN, -⟩ := shows_of_build hok
  obtain ⟨actions, hactions⟩ := exists_actions hok
  have hrequirement : a.graph.requirement ⟨i⟩ = spec.requiredCount := by
    rw [hs.requirement_eq, hN.required hi]
  have hrequired : a.graph.requiredInputs ⟨i⟩ = spec.requirable := by
    rw [hs.requiredInputs_eq hΛ, hN.countP_inputs hi]
  have hsettings := hN.accepted.settings hi
  simp only [NodeSpec.settingFlaws, List.append_eq_nil_iff] at hsettings
  refine ⟨⟨?_, ?_, hrequired⟩, ?_, fun g hg => ?_⟩
  · rw [hrequirement]
    exact hN.accepted.requiredCount_pos hi hin
  · rw [hrequirement]
    exact NodeSpec.requiredCount_le hsettings.2
  · rw [hrequirement, hrequired]
    exact spec.requiredCount_le_requirable_iff
  · have hsame := hg.sameDemand (tidy_of_build hok) ⟨i⟩
    rw [hactions] at hg
    obtain ⟨more, rfl⟩ := hg.exists_append
    have htidy := Action.tidy_graph (actions ++ more)
    refine ⟨fun hlt budget mode m c hc => ?_, fun ps hne hnodup hps =>
      htidy.meets hne hnodup hps⟩
    rw [← hsame.requirement, ← hsame.requiredInputs] at hlt
    exact htidy.input_not_called (Action.tallied_graph _) hlt hc

/-- Two sources into a mixer that does not wait for the second of them, and is told to
require two inputs. -/
def overdemanding : Description where
  name := "overdemanding"
  nodes := [
    { name := "a", kind := .source },
    { name := "b", kind := .source },
    { name := "mix", kind := .mixer, requiredIn := some 2, optionalInputs := [1] },
    { name := "out", kind := .sink }]
  links := [⟨"a", "mix:0"⟩, ⟨"b", "mix:1"⟩, ⟨"mix", "out"⟩]
  script := Catalogue.pulls

lemma exists_build_overdemanding : ∃ a : Assembly Empty, build overdemanding = .ok a ∧
    a.graph.requirement ⟨2⟩ = 2 ∧ a.graph.requiredInputs ⟨2⟩ = 1 := by
  have hbuilt : ((build (τ := Empty) overdemanding).toOption.any fun a =>
      a.graph.requirement ⟨2⟩ = 2 ∧ a.graph.requiredInputs ⟨2⟩ = 1) = true := by
    decide +kernel
  rcases hbuild : build (τ := Empty) overdemanding with e | a
  · simp [hbuild, Except.toOption] at hbuilt
  · refine ⟨a, rfl, ?_⟩
    simpa [hbuild, Except.toOption] using hbuilt

/-- The mixer is never called for its inputs. -/
theorem threshold_met_iff_overdemanding :
    ∃ a : Assembly Empty, build overdemanding = .ok a ∧
      a.graph.requiredInputs ⟨2⟩ < a.graph.requirement ⟨2⟩ ∧
      ∀ c ∈ (a.graph.pull ⟨3⟩).callbacks, ¬ (c.node = ⟨2⟩ ∧ c.side = .input) := by
  obtain ⟨a, hok, hrequirement, hrequired⟩ := exists_build_overdemanding
  have hlt : a.graph.requiredInputs ⟨2⟩ < a.graph.requirement ⟨2⟩ := by omega
  exact ⟨a, hok, hlt, ((threshold_met_iff hok (i := 2) rfl (by decide)).2.2 a.graph
    .start).1 hlt _ _ _⟩

/-- The description is accepted, and the mixer requires more inputs than it has that are
not optional. -/
theorem threshold_unmet :
    overdemanding.validate = .ok () ∧ ∃ a : Assembly Empty, build overdemanding = .ok a ∧
      ¬ a.graph.requirement ⟨2⟩ ≤ a.graph.requiredInputs ⟨2⟩ := by
  obtain ⟨a, hok, hrequirement, hrequired⟩ := exists_build_overdemanding
  exact ⟨(exists_parts hok).1, a, hok, by omega⟩

end Assembly

end MediaGraph

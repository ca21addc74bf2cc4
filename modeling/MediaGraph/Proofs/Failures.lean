/-
How activations of built graphs fail.

* `Network.Severed`, `Graph.Severed`: a node cannot do its work because ports of
  it are not linked;
* `Acts.severed`: a call fails only at such a node;
* `Description.failure_serve_severed`: so does every turn, as no source ever waits to
  process inputs, no pool runs out, and every node with required inputs requires
  some;
* `Graph.failures_unlinked`: after any activations of a built graph an activation
  fails only at such a node, and not at all if every port is linked.
-/
import MediaGraph.Proofs.Observation
import MediaGraph.Proofs.Quiescence
import MediaGraph.Proofs.Stock

namespace MediaGraph

variable {τ : Type}

/-! ### Calls -/

namespace Network

variable {N : Network} {n : NodeId}

/-- What keeps an adapter from its work: the only output of a source is not
linked, nor is the only input of a sink, nor the output of a mixer or any of its
inputs. -/
def Severed (N : Network) (n : NodeId) : NodeKind → Prop
  | .source => N.outputs n = [none]
  | .sink => ∃ p, N.inputs n = [p] ∧ N.feeder p = none
  | .mixer => N.outputs n = [none] ∨ ∀ p ∈ N.inputs n, N.feeder p = none

/-- A call fails only if its node is severed, unless a source has inputs to
process or the pool is not whole. -/
lemma Acts.severed {slot slot' : PortId → Slot} {x x' : Adapter τ} {side : Side}
    {cause : ProcessError} (h : N.Acts n slot x side (.error cause) slot' x')
    (hside : x.kind? = some .source → side = .output)
    (hwhole : ∀ pool p, x.pool? = some pool → N.outputs n = [some p] →
      (pool.recycle (slot p).buffer).Whole) :
    cause = .unlinked ∧ ∃ kind, x.kind? = some kind ∧ N.Severed n kind := by
  have hstocked : ∀ {pool pool' : BufferPool} {p : PortId}, x.pool? = some pool →
      N.outputs n = [some p] →
      (pool.recycle (slot p).buffer).acquire ≠ (none, pool') :=
    fun hpool ho => (hwhole _ _ hpool ho).acquire_ne_none _
  cases h with
  | notSupported => cases hside rfl
  | mute ho => exact ⟨rfl, .source, rfl, ho⟩
  | dry ho _ hacq => exact absurd hacq (hstocked rfl ho)
  | deaf hin hf => exact ⟨rfl, .sink, rfl, _, hin, hf⟩
  | idle hidle => exact ⟨rfl, .mixer, rfl, hidle⟩
  | spill ho _ _ _ hacq => exact absurd hacq (hstocked rfl ho)

end Network

/-! ### Turns -/

namespace Description

variable {d : Description} {N : Network} {s : Flow (Adapter τ)} {n : NodeId}

/-- Nothing is counted in an untouched flow. -/
lemma Untouched.tallied (h : d.Untouched N s) : N.Tallied s where
  ready n := by simp [h.ready]
  counted hc := by simp [h.counted] at hc
  complete hn := by simp [h.queued] at hn

/-- What keeps turns from failing anywhere but at severed nodes: the pools of all
producers are whole, and no node counts inputs that it does not have. -/
structure Sturdy (d : Description) (N : Network) (s : Flow (Adapter τ)) : Prop where
  sound : d.Sound N s
  tallied : N.Tallied s
  idle : ∀ n, s.queued n = false

/-- A source never waits to process inputs. -/
lemma side_of_source (hN : d.Realized N) (h : N.Tallied s) {spec : NodeSpec}
    (hspec : d.nodes[n.index]? = some spec) (hk : spec.kind = .source)
    (hn : s.queued n = true) {side : Side} (hφ : s.phase n = side.phase) :
    side = .output := by
  cases side with
  | output => rfl
  | input =>
      -- it would have counted inputs, and it has none
      obtain ⟨hpos, hcount⟩ := h.complete hn hφ
      have hin := hN.inputs hspec
      simp only [NodeSpec.inputCount, hk, List.length_eq_zero_iff] at hin
      have hle := h.ready n
      simp only [hin, List.countP_nil] at hle
      omega

variable [Processor τ]

/-- A turn fails only at a severed node. -/
lemma failure_serve_severed (hN : d.Realized N) (h : d.Sound N s) (ht : N.Tallied s)
    {D : Option NodeId} (hn : s.queued n = true) {e : ActivationError}
    (he : (N.serve D n s).failure = some e) :
    e = .processFailed n .unlinked ∧
      ∃ spec, d.nodes[n.index]? = some spec ∧ N.Severed n spec.kind := by
  rcases h.staffed.serves hN D n with hserves | hidle
  · generalize N.serve D n s = v at hserves he
    cases hserves with
    | @call x x' side r slot hx hφ hacts =>
        cases r with
        | ok => cases he
        | error cause =>
            cases he
            obtain ⟨spec, hspec, hkind⟩ := h.staffed.exists_spec hx
            obtain ⟨rfl, kind, hk, hsevered⟩ := hacts.severed
              (fun hsource => side_of_source hN ht hspec
                (Option.some.inj (hkind.symm.trans hsource)) hn hφ)
              fun pool p hpool ho => h.whole hx hpool ho
            obtain rfl : spec.kind = kind := Option.some.inj (hkind.symm.trans hk)
            exact ⟨rfl, spec, hspec, hsevered⟩
    | stuck _ hd => simp [hN.demandsNothing_eq_false] at hd
    | check => cases he
    | announce => cases he
  · rw [hidle] at he
    cases he

namespace Sturdy

/-- Every activation keeps that turns can fail only at severed nodes. -/
lemma ends (hN : d.Realized N) (h : d.Sturdy N s) {mode : Mode} {budget : Nat}
    {r : Except ActivationError Unit} {calls : List Callback} {t : Flow (Adapter τ)}
    (ht : N.Ends (some n) (s.start mode n) budget r calls t) : d.Sturdy N t.clear where
  sound := h.sound.ends hN ht
  tallied := h.tallied.ends hN.proper h.idle ht
  idle _ := rfl

/-- An activation fails only at a severed node. -/
lemma severed_of_ends (hN : d.Realized N) (h : d.Sturdy N s) {mode : Mode}
    {budget : Nat} {e : ActivationError} {calls : List Callback} {t : Flow (Adapter τ)}
    (ht : N.Ends (some n) (s.start mode n) budget (.error e) calls t) :
    e = .tooManyTurns ∨ ∃ m spec, d.nodes[m.index]? = some spec ∧
      e = .processFailed m .unlinked ∧ N.Severed m spec.kind := by
  cases ht with
  | @failed _ _ u _ m _ _ hruns _ hm hserve =>
      obtain ⟨hsound, htallied⟩ := hruns.invariant
        (P := fun u => d.Sound N u ∧ N.Tallied u)
        ⟨h.sound.congr rfl rfl, h.tallied.start h.idle mode n⟩
        fun u m _ hu => ⟨hu.1.serve hN (some n) m, hu.2.serve hN.proper m⟩
      obtain ⟨he, spec, hspec, hsevered⟩ :=
        failure_serve_severed hN hsound htallied hm (by rw [hserve])
      exact Or.inr ⟨m, spec, hspec, he, hsevered⟩
  | exhausted => exact Or.inl rfl

end Sturdy

end Description

/-! ### Activations -/

namespace Graph

/-- What keeps a node of a kind from its work: the only output of a source is not
linked, nor is the only input of a sink, nor the output of a mixer or any of its
inputs. -/
def Severed {σ : Type} (g : Graph σ) (n : NodeId) : NodeKind → Prop
  | .source => ∃ p, g.outputsOf n = [p] ∧ g.peer? p = none
  | .sink => ∃ p, g.inputsOf n = [p] ∧ g.peer? p = none
  | .mixer => (∃ p, g.outputsOf n = [p] ∧ g.peer? p = none) ∨
      ∀ p ∈ g.inputsOf n, g.peer? p = none

variable {σ : Type} {g : Graph σ} {Λ : Layout} {D : Option NodeId} {s : Flow σ}
  {n : NodeId}

/-- A node is severed in a graph exactly if it is in the network of the graph. -/
lemma Shows.severed_iff (hΛ : Λ.Proper) (h : g.Shows Λ D s) {kind : NodeKind} :
    g.Severed n kind ↔ Λ.network.Severed n kind := by
  have hpeer : ∀ p, g.peer? p = none ↔ Λ.network.feeder p = none := by
    intro p
    rw [h.peer?_eq, ← Option.isNone_iff_eq_none, ← Option.isNone_iff_eq_none,
      ← Option.not_isSome, ← Option.not_isSome, hΛ.isSome_feeder]
  have hout : (∃ p, g.outputsOf n = [p] ∧ g.peer? p = none) ↔
      Λ.network.outputs n = [none] := by
    rw [h.outputsOf_eq, Layout.network_outputs, List.map_eq_singleton_iff]
    simp only [h.peer?_eq]
  cases kind with
  | source => exact hout
  | sink => simp only [Severed, Network.Severed, hpeer, h.inputsOf_eq]
  | mixer => exact or_congr hout (by simp only [hpeer, h.inputsOf_eq])

/-- No node is severed if every port is linked. -/
lemma FullyLinked.not_severed (hg : g.FullyLinked) (hΛ : Λ.Proper)
    (h : g.Shows Λ D s) {d : Description} (hN : d.Realized Λ.network)
    {spec : NodeSpec} (hspec : d.nodes[n.index]? = some spec) :
    ¬ g.Severed n spec.kind := by
  have hlinked : ∀ {d : Direction} {p : PortId}, p ∈ Λ.portsOf n d →
      g.peer? p ≠ none := by
    intro d p hp
    obtain ⟨port', hport', -⟩ := hΛ.mem_portsOf.mp hp
    obtain ⟨port, hport, -⟩ := h.exists_port hport'
    rw [peer?, hport, Option.bind_some, Port.peer?, ne_eq, Option.map_eq_none_iff,
      ← ne_eq, Option.ne_none_iff_isSome]
    exact hg p port hport
  have hout : ¬ ∃ p, g.outputsOf n = [p] ∧ g.peer? p = none := by
    rintro ⟨p, hp, hnone⟩
    refine hlinked (d := .output) (p := p) ?_ hnone
    rw [← h.outputsOf_eq, hp]
    exact List.mem_singleton_self p
  have hin : ∀ {p}, p ∈ g.inputsOf n → g.peer? p ≠ none := by
    intro p hp
    rw [h.inputsOf_eq] at hp
    exact hlinked hp
  rcases hk : spec.kind
  · exact hout
  · rintro ⟨p, hp, hnone⟩
    exact hin (hp ▸ List.mem_singleton_self p) hnone
  · rintro (hsevered | hnone)
    · exact hout hsevered
    · have hlength := hN.inputs hspec
      have hpos := hN.accepted.inputCount_pos hspec hk
      rw [← hlength] at hpos
      obtain ⟨p, hp⟩ := List.exists_mem_of_length_pos hpos
      rw [← h.inputsOf_eq] at hp
      exact hin hp (hnone p hp)

variable [Processor τ]

/-- After any activations of a built graph, an activation of one of its nodes that
does not use up the allowed turns fails only because it called a node that is
severed. It does not fail at all if every port is linked. -/
theorem failures_unlinked {d : Description} {a : Assembly τ}
    {g : Graph (Adapter τ)} (hok : Assembly.build d = .ok a)
    (hg : a.graph.Activated (fun _ _ _ => True) g) {n : NodeId}
    (hn : n.index < d.nodes.length) (mode : Mode) (budget : Nat)
    (hends : (g.activate budget mode n).result ≠ .error .tooManyTurns) :
    (∀ e, (g.activate budget mode n).result = .error e →
      ∃ m spec, d.nodes[m.index]? = some spec ∧ e = .processFailed m .unlinked ∧
        a.graph.Severed m spec.kind) ∧
    (a.graph.FullyLinked → (g.activate budget mode n).result = .ok ()) := by
  obtain ⟨Λ, s₀, hΛ, h₀, hN, huntouched⟩ := Assembly.shows_of_build hok
  obtain ⟨s, hs, hsturdy⟩ := Activated.shows (P := d.Sturdy Λ.network) hΛ h₀
    ⟨huntouched.sound hN, huntouched.tallied, huntouched.queued⟩
    (fun h _ ht => h.ends hN ht) hg
  have hspec := List.getElem?_eq_getElem hn
  obtain ⟨node, hnode⟩ := hsturdy.sound.staffed.exists_node hs hspec
  obtain ⟨t, ht, -⟩ := hs.activate hΛ (hs.node hnode) budget mode
  rcases hr : (g.activate budget mode n).result with e | ⟨⟩
  · rw [hr] at ht hends
    rcases hsturdy.severed_of_ends hN ht with rfl | ⟨m, spec, hm, he, hsevered⟩
    · exact absurd rfl hends
    · rw [← h₀.severed_iff hΛ] at hsevered
      refine ⟨fun e' he' => ?_, fun hlinked => ?_⟩
      · cases he'
        exact ⟨m, spec, hm, he, hsevered⟩
      · exact absurd hsevered (hlinked.not_severed hΛ h₀ hN hm)
  · exact ⟨fun e he => (nomatch he), fun _ => rfl⟩

/-- The pull of the sink behind a mixer of two sources, after one of them was
pushed. -/
theorem failures_unlinked_fanIn :
    ∃ a : Assembly Empty, Assembly.build Catalogue.fanIn = .ok a ∧
      ((a.graph.push ⟨0⟩).graph.pull ⟨3⟩).result = .ok () := by
  obtain ⟨a, ha, hlinked⟩ := Catalogue.exists_build (d := Catalogue.fanIn)
    (by simp [Catalogue.all])
  have hends : (Assembly.build (τ := Empty) Catalogue.fanIn).toOption.any (fun a =>
      ((a.graph.push ⟨0⟩).graph.pull ⟨3⟩).result ≠ .error .tooManyTurns) = true := by
    decide +kernel
  simp only [ha, Except.toOption, Option.any_some, decide_eq_true_eq] at hends
  have hg : a.graph.Activated (fun _ _ _ => True) (a.graph.push ⟨0⟩).graph :=
    .activate turnLimit .start trivial
  exact ⟨a, ha, (failures_unlinked ha hg (n := ⟨3⟩) (by decide) .pull turnLimit
    hends).2 hlinked⟩

/-- A source whose output is not linked. -/
example : (Assembly.build (τ := Empty)
    { name := "mute", nodes := [{ name := "src", kind := .source }] }).toOption.map
      (fun a => (a.graph.push ⟨0⟩).result) =
    some (.error (.processFailed ⟨0⟩ .unlinked)) := by
  decide +kernel

end Graph

end MediaGraph

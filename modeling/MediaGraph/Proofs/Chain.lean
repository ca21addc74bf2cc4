/-
Chains: a source, mixers with one input each, and a sink.

* `Description.IsPath`, `Description.IsChain`: the nodes of a description form such
  a chain, with or without optional inputs;
* `IsPath.isChain_pipes`, `IsChain.line`: so do the nodes of the graph that is built
  from it;
* `Graph.activate_chain`: after any pulls of the sink and pushes of the source,
  each of them hands the sink one buffer, calls every mixer once on each side,
  and leaves all links asking for data.
-/
import MediaGraph.Proofs.Chain.Waves
import MediaGraph.Proofs.Construction

namespace MediaGraph

/-! ### Chains of a description -/

/-- The nodes of a description are a source that is not asynchronous, mixers with
one input each, and a sink, each of them linked to the next one. -/
structure Description.IsPath (d : Description) (S : NodeId)
    (mixers : List NodeId) (K : NodeId) : Prop where
  nodes : (S :: (mixers ++ [K])).Perm ((List.range d.nodes.length).map Handle.mk)
  source : ∃ spec, d.nodes[S.index]? = some spec ∧ spec.kind = .source ∧
    spec.async = false
  mixer : ∀ m ∈ mixers, ∃ spec, d.nodes[m.index]? = some spec ∧
    spec.kind = .mixer ∧ spec.inputCount = 1
  sink : ∃ spec, d.nodes[K.index]? = some spec ∧ spec.kind = .sink
  linked : (S :: (mixers ++ [K])).IsChain fun x y => d.Linked x.index y.index

namespace Description.IsPath

variable {d : Description} {N : Network} {S K n x y : NodeId}
  {mixers : List NodeId}

lemma kind_source (h : d.IsPath S mixers K) : d.kind? S = some .source := by
  obtain ⟨spec, hspec, hk, -⟩ := h.source
  rw [kind?, hspec, Option.map_some, hk]

lemma kind_mixer (h : d.IsPath S mixers K) {m : NodeId} (hm : m ∈ mixers) :
    d.kind? m = some .mixer := by
  obtain ⟨spec, hspec, hk, -⟩ := h.mixer m hm
  rw [kind?, hspec, Option.map_some, hk]

lemma kind_sink (h : d.IsPath S mixers K) : d.kind? K = some .sink := by
  obtain ⟨spec, hspec, hk⟩ := h.sink
  rw [kind?, hspec, Option.map_some, hk]

lemma nodup (h : d.IsPath S mixers K) : (S :: (mixers ++ [K])).Nodup :=
  h.nodes.nodup_iff.mpr
    (List.nodup_range.map fun _ _ he => congrArg Handle.index he)

/-- The nodes of the description are those of the chain. -/
lemma mem (h : d.IsPath S mixers K) {spec : NodeSpec}
    (hn : d.nodes[n.index]? = some spec) : n ∈ S :: (mixers ++ [K]) := by
  rw [h.nodes.mem_iff]
  have hlt := (List.getElem?_eq_some_iff.mp hn).1
  exact List.mem_map.mpr ⟨n.index, List.mem_range.mpr hlt, rfl⟩

/-- A node with inputs comes after the source and has one. -/
lemma inputCount_eq (h : d.IsPath S mixers K) {spec : NodeSpec}
    (hn : d.nodes[n.index]? = some spec) (hin : spec.inputCount ≠ 0) :
    n ∈ mixers ++ [K] ∧ spec.inputCount = 1 := by
  rcases List.mem_cons.mp (h.mem hn) with rfl | hm
  · obtain ⟨spec', hspec', hk, -⟩ := h.source
    obtain rfl : spec = spec' := by simpa [hn] using hspec'
    simp [NodeSpec.inputCount, hk] at hin
  · refine ⟨hm, ?_⟩
    rcases List.mem_append.mp hm with hm | hm
    · obtain ⟨spec', hspec', -, hone⟩ := h.mixer n hm
      obtain rfl : spec = spec' := by simpa [hn] using hspec'
      exact hone
    · obtain rfl := List.mem_singleton.mp hm
      obtain ⟨spec', hspec', hk⟩ := h.sink
      obtain rfl : spec = spec' := by simpa [hn] using hspec'
      simp [NodeSpec.inputCount, hk]

/-- The output of a node leads into the only input of the one that it feeds. -/
lemma pipes (h : d.IsPath S mixers K) (hN : d.Realized N) (hxy : N.Feeds x y) :
    y ∈ mixers ++ [K] ∧ ∃ p, N.Pipes x y p := by
  obtain ⟨p, hp, hf⟩ := hxy
  have htarget := (hN.proper.feeder hp x).mp hf
  obtain ⟨spec, hy⟩ := hN.exists_spec_of_input hp
  obtain ⟨spec', hx, hk⟩ := hN.exists_spec_of_target htarget
  have hlength := hN.inputs hy
  obtain ⟨hmem, hone⟩ := h.inputCount_eq hy (by
    rintro hzero
    rw [hzero, List.length_eq_zero_iff] at hlength
    simp [hlength] at hp)
  refine ⟨hmem, p, ?_, ?_, ?_⟩
  · have hlength := hN.outputs hx
    obtain ⟨o, ho⟩ : ∃ o, N.outputs x = [o] := by
      rw [← List.length_eq_one_iff, hlength, NodeSpec.outputCount]
      cases hkind : spec'.kind <;> simp_all
    rw [Network.targets, ho, List.reduceOption_mem_iff, List.mem_singleton] at htarget
    rw [ho, htarget]
  · rw [hone] at hlength
    obtain ⟨q, hq⟩ := List.length_eq_one_iff.mp hlength
    rw [hq, List.mem_singleton] at hp
    rw [hq, hp]
  · have hsettings := hN.accepted.settings hy
    simp only [NodeSpec.settingFlaws, List.append_eq_nil_iff] at hsettings
    have hle := NodeSpec.requiredCount_le hsettings.2
    have hpos := hN.accepted.requiredCount_pos hy (by omega)
    rw [hN.required hy]
    omega

/-- The nodes of a graph that is built from a chain form a chain. -/
lemma isChain_pipes (h : d.IsPath S mixers K) (hN : d.Realized N)
    (hlinks : ∀ {i j}, d.Linked i j → N.Feeds ⟨i⟩ ⟨j⟩) :
    (S :: (mixers ++ [K])).IsChain fun x y => ∃ p, N.Pipes x y p :=
  h.linked.imp fun _ _ hxy => (h.pipes hN (hlinks hxy)).2

/-- No two nodes feed each other: a link leads from one place in the chain to the
next one. -/
lemma asymm (h : d.IsPath S mixers K) (hN : d.Realized N)
    (hlinks : ∀ {i j}, d.Linked i j → N.Feeds ⟨i⟩ ⟨j⟩) (hxy : N.Feeds x y) :
    ¬ N.Feeds y x := by
  have hplace : ∀ {x y}, N.Feeds x y →
      ∃ i, ∃ hi : i + 1 < (S :: (mixers ++ [K])).length,
      (S :: (mixers ++ [K]))[i] = x ∧ (S :: (mixers ++ [K]))[i + 1] = y := by
    intro x y hxy
    obtain ⟨hmem, p, hp⟩ := h.pipes hN hxy
    obtain ⟨i, hi, rfl⟩ := List.mem_iff_getElem.mp hmem
    have hi' : i + 1 < (S :: (mixers ++ [K])).length := by simpa using hi
    obtain ⟨q, hq⟩ := List.isChain_iff_getElem.mp (h.isChain_pipes hN hlinks) i hi'
    refine ⟨i, hi', ?_, rfl⟩
    obtain rfl : q = p := by
      have hin := hq.inputs
      rw [show (S :: (mixers ++ [K]))[i + 1] = (mixers ++ [K])[i] from rfl,
        hp.inputs] at hin
      simpa [eq_comm] using hin
    exact Option.some.inj (((hq.joins none).feeder hN.proper).symm.trans
      ((hp.joins none).feeder hN.proper))
  intro hyx
  obtain ⟨i, hi, hix, hiy⟩ := hplace hxy
  obtain ⟨j, hj, hjy, hjx⟩ := hplace hyx
  have h₁ := h.nodup.getElem_inj_iff.mp (hiy.trans hjy.symm)
  have h₂ := h.nodup.getElem_inj_iff.mp (hix.trans hjx.symm)
  omega

end Description.IsPath

/-- Such a chain without optional inputs. -/
structure Description.IsChain (d : Description) (S : NodeId)
    (mixers : List NodeId) (K : NodeId) : Prop extends d.IsPath S mixers K where
  required : ∀ spec ∈ d.nodes, spec.optionalInputs = []

namespace Description.IsChain

variable {d : Description} {N : Network} {S K n x y : NodeId}
  {mixers : List NodeId} {p : PortId}

/-- No input of a chain is optional. -/
lemma optional_eq_false (h : d.IsChain S mixers K) (hN : d.Realized N)
    (hp : p ∈ N.inputs n) : N.optional p = false := by
  obtain ⟨spec, hspec⟩ := hN.exists_spec_of_input hp
  obtain ⟨k, hk⟩ := List.mem_iff_getElem?.mp hp
  rw [hN.optional hspec hk, NodeSpec.isOptional,
    h.required spec (List.mem_of_getElem? hspec)]
  rfl

/-- Linked nodes of a chain hand their output to each other. -/
lemma hands (h : d.IsChain S mixers K) (hN : d.Realized N) (hxy : N.Feeds x y) :
    y ∈ mixers ++ [K] ∧ ∃ p, ∀ D, N.Hands D x y p := by
  obtain ⟨hmem, p, hp⟩ := h.toIsPath.pipes hN hxy
  have hmem' : p ∈ N.inputs y := by simp [hp.inputs]
  exact ⟨hmem, p, hp.hands (h.optional_eq_false hN hmem')⟩

/-- The nodes of a graph that is built from a chain form a chain. -/
lemma line (h : d.IsChain S mixers K) (hN : d.Realized N)
    (hlinks : ∀ {i j}, d.Linked i j → N.Feeds ⟨i⟩ ⟨j⟩) (D : Option NodeId) :
    N.Line d D S mixers K where
  hands := h.linked.imp fun x y hxy => by
    obtain ⟨-, p, hp⟩ := h.hands hN (hlinks hxy)
    exact ⟨p, hp D⟩
  source := h.kind_source
  mixer m hm := h.toIsPath.kind_mixer hm
  sink := h.kind_sink
  sync := by
    obtain ⟨spec, hspec, -, hasync⟩ := h.source
    rw [hN.async hspec, hasync]
  asymm := h.toIsPath.asymm hN hlinks

end Description.IsChain

/-! ### The calls of every node -/

namespace Network

variable {S K n : NodeId} {mixers l : List NodeId}

/-- The calls of a node among those of different nodes, one each. -/
lemma filter_map_node {f : NodeId → Callback} (hf : ∀ m, (f m).node = m)
    (hl : l.Nodup) (n : NodeId) :
    (l.map f).filter (·.node = n) = if n ∈ l then [f n] else [] := by
  induction l with
  | nil => rfl
  | cons m l ih =>
      obtain ⟨hm, hl⟩ := List.nodup_cons.mp hl
      rw [List.map_cons, List.filter_cons, ih hl]
      rcases eq_or_ne m n with rfl | hmn
      · simp [hf, hm]
      · simp [hf, hmn, hmn.symm]

/-- In an activation of a chain the source and the sink are called once, and
every mixer once on each side. -/
lemma sides_chainCalls (hnodup : (S :: (mixers ++ [K])).Nodup) (mode : Mode) :
    let sides n := ((chainCalls S mixers K mode).filter (·.node = n)).map (·.side)
    sides S = [.output] ∧ sides K = [.input] ∧ ∀ m ∈ mixers, sides m =
      match mode with
      | .pull => [.output, .input]
      | .push => [.input, .output] := by
  obtain ⟨hS, hnodup⟩ := List.nodup_cons.mp hnodup
  obtain ⟨hmixers, -, hK⟩ := List.nodup_append.mp hnodup
  have hSK : S ≠ K := by
    rintro rfl
    simp at hS
  have hSm : S ∉ mixers := fun h => hS (by simp [h])
  have hKm : K ∉ mixers := fun h => hK K h K (by simp) rfl
  have hasking := filter_map_node (f := asking) (fun _ => rfl) hmixers
  have hhanding := filter_map_node (f := handing) (fun _ => rfl) hmixers
  refine ⟨?_, ?_, fun m hm => ?_⟩
  · cases mode <;>
      simp [chainCalls, hasking, hhanding, hSm, hSK.symm, producing, consuming]
  · cases mode <;>
      simp [chainCalls, hasking, hhanding, hKm, hSK, producing, consuming]
  · have hmS : S ≠ m := fun h => hSm (h ▸ hm)
    have hmK : K ≠ m := fun h => hKm (h ▸ hm)
    cases mode <;>
      simp [chainCalls, hasking, hhanding, hm, hmS, hmK, producing, consuming,
        asking, handing]

/-- How many calls of an activation of a chain are made on each side. -/
lemma countP_chainCalls (mode : Mode) (side : Side) :
    (chainCalls S mixers K mode).countP (·.side = side) = mixers.length + 1 := by
  have hasking : (mixers.map asking).countP (·.side = side) =
      if side = .output then mixers.length else 0 := by
    cases side <;> simp [List.countP_map, Function.comp_def, asking]
  have hhanding : (mixers.map handing).countP (·.side = side) =
      if side = .input then mixers.length else 0 := by
    cases side <;> simp [List.countP_map, Function.comp_def, handing]
  cases mode <;> cases side <;>
    simp [chainCalls, List.countP_append, hasking, hhanding, producing, consuming]

end Network

/-! ### Activations of a built chain -/

namespace Graph

/-- What is behind a live slot is behind a linked input. -/
lemma Tidy.exists_input {σ : Type} {g : Graph σ} (h : g.Tidy) {Λ : Layout}
    {D : Option NodeId} {s : Flow σ} (hs : g.Shows Λ D s) {t : SlotId} {c : Slot}
    (ht : g.slots.get? t = some c) :
    ∃ n, ∃ p ∈ Λ.network.inputs n, (Λ.network.feeder p).isSome = true ∧
      s.slot p = c := by
  have hΛ : Λ.Proper := hs.layout ▸ h.layout
  obtain ⟨p, q, port, hport, hdir, hl, hid⟩ := h.exists_output (s := t)
    (by simp [Graph.layout, ht])
  have htarget : q ∈ Λ.network.targets port.owner := by
    refine Layout.mem_targets.mpr ⟨p, ?_, ?_⟩
    · exact hΛ.mem_portsOf.mpr ⟨_, hs.port hport, rfl, hdir⟩
    · exact Layout.peer?_eq_some.mpr ⟨_, t, hs.port hport, hl⟩
  obtain ⟨n, hq⟩ := hΛ.network.target htarget
  have hf := (hΛ.network.feeder hq _).mpr htarget
  refine ⟨n, q, hq, by rw [hf]; rfl, ?_⟩
  have hslot := hs.slotOf?_input hΛ hq
  rw [slotOf?, (hid q).mpr (Or.inr rfl), Option.bind_some, ht, Network.linked?, hf]
    at hslot
  exact (Option.some.inj hslot).symm

variable {τ : Type} [Processor τ] {d : Description} {a : Assembly τ}
  {g : Graph (Adapter τ)} {S K : NodeId} {mixers : List NodeId}

/-- After any pulls of the sink and pushes of the source of a chain, each of them
ends well within four turns for each node but the ends and four more. The sink
gets one buffer, the source is asked once, the sink processes its input once, and
every mixer is called once on each side. In the end nobody waits, all links ask
for data, and no input is counted. -/
theorem activate_chain (hok : Assembly.build d = .ok a)
    (hd : d.IsChain S mixers K)
    (hg : a.graph.Activated (fun mode n r => n = mode.driver S K ∧
      r ≠ .error .tooManyTurns) g) (mode : Mode) :
    ∃ out : Activation (Adapter τ),
      (∀ budget, 4 * mixers.length + 4 ≤ budget →
        g.activate budget mode (mode.driver S K) = out) ∧
      out.result = .ok () ∧
      (∃ snk snk', g.processor? K = some (.sink snk) ∧
        out.graph.processor? K = some (.sink snk') ∧
        snk'.received = snk.received + 1) ∧
      out.sidesOf S = [.output] ∧ out.sidesOf K = [.input] ∧
      (∀ m ∈ mixers, out.sidesOf m =
        match mode with
        | .pull => [.output, .input]
        | .push => [.input, .output]) ∧
      (∀ n, out.graph.ready.contains n = false) ∧
      (∀ s slot, out.graph.slots.get? s = some slot → slot.status = .needData) ∧
      (∀ n node, out.graph.nodes.get? n = some node → node.readyIn = 0) ∧
      out.graph.stats = {
        dispatches := 4 * mixers.length + 4
        inputCalls := mixers.length + 1
        outputCalls := mixers.length + 1 } := by
  obtain ⟨Λ, s₀, hΛ, h₀, hN, huntouched⟩ := Assembly.shows_of_build hok
  have hline := hd.line hN fun hij =>
    h₀.feeds_iff.mp (Assembly.feeds_of_linked hok hij)
  -- between activations the chain is at rest
  obtain ⟨s, hs, hsteady, hnone⟩ := Activated.shows
    (P := fun s => Network.Steady d Λ.network none none s ∧
      ∀ m, s.queued m = false) hΛ h₀
    ⟨.of_untouched hN huntouched, huntouched.queued⟩ (by
      rintro s t mode n budget r calls ⟨hsteady, hnone⟩ ⟨rfl, hr⟩ hends
      obtain ⟨snk, hsnk⟩ := hsteady.exists_sink hd.kind_sink
      obtain ⟨t', hforced, ht', hnone', -⟩ :=
        (hline _).forced hN hsteady hnone hsnk
      obtain ⟨-, -, rfl⟩ := hends.eq_of_forced hforced hnone' (Or.inr hr)
      exact ⟨ht'.clear, fun _ => rfl⟩) hg
  -- the activation
  obtain ⟨snk, hsnk⟩ := hsteady.exists_sink hd.kind_sink
  obtain ⟨t, hforced, ht, hnone', hheard, snk', hsnk', hreceived⟩ :=
    (hline _).forced hN hsteady hnone hsnk
  obtain ⟨kind, hkind⟩ : ∃ kind, d.kind? (mode.driver S K) = some kind := by
    cases mode
    · exact ⟨_, hd.kind_sink⟩
    · exact ⟨_, hd.kind_source⟩
  obtain ⟨spec, hspec, -⟩ := Option.map_eq_some_iff.mp hkind
  obtain ⟨node, hnode⟩ := hsteady.sound.staffed.exists_node hs hspec
  let k := 4 * mixers.length + 4
  obtain ⟨u, hends, hu⟩ := hs.activate hΛ (hs.node hnode) k mode
  obtain ⟨hr, hcalls, rfl⟩ := hends.eq_of_forced hforced hnone' (Or.inl (Nat.le_refl k))
  obtain ⟨hsideS, hsideK, hsidem⟩ := Network.sides_chainCalls hd.nodup mode
  rw [← hcalls] at hsideS hsideK hsidem
  refine ⟨g.activate k mode (mode.driver S K), fun budget hb =>
    activate_eq_of_le hb (by simp [hr]), hr, ⟨snk, snk', ?_, ?_, hreceived⟩, hsideS,
    hsideK, hsidem, fun n => ?_, fun i c hc => ?_, fun n node hn => ?_, ?_⟩
  · rw [hs.processor?_eq, hsnk]
  · rw [hu.processor?_eq]
    exact hsnk'
  · have := congrFun (congrArg Flow.queued hu.flow) n
    exact this
  · have htidy := (hg.tidy (Assembly.tidy_of_build hok)).activate k mode
      (mode.driver S K)
    obtain ⟨n, p, hp, hf, rfl⟩ := htidy.exists_input hu hc
    have hempty : (u.slot p).hasData = false := by
      simpa using ht.full hp (hd.optional_eq_false hN hp)
    have hn : n ∈ mixers ++ [K] := by
      obtain ⟨x, hx⟩ := Option.isSome_iff_exists.mp hf
      exact (hd.hands hN ⟨p, hp, hx⟩).1
    refine (hheard n hn p hp (hd.optional_eq_false hN hp)).resolve_left
      fun hdata => ?_
    simp [Slot.hasData, hdata] at hempty
  · have := congrFun (congrArg Flow.ready hu.flow) n
    rw [show (_ : Flow (Adapter τ)).ready n = node.readyIn by simp [flow, hn]] at this
    rw [this]
    exact ht.ready (by simp)
  · have hstats : (g.activate k mode (mode.driver S K)).graph.stats = u.stats :=
      congrArg Flow.stats hu.flow
    rw [hstats, hforced.stats hN (hsteady.start hnone mode _).1.sound.staffed,
      Network.countP_chainCalls, Network.countP_chainCalls]
    simp [Flow.start, Flow.enqueue]

/-- A source, a mixer and a sink, pulled after a push. -/
theorem activate_chain_pushChain :
    ∃ a : Assembly Empty, Assembly.build Catalogue.pushChain = .ok a ∧
      ∃ pushed pulled : Activation (Adapter Empty),
        (∀ budget, 8 ≤ budget → a.graph.activate budget .push ⟨0⟩ = pushed) ∧
        (∀ budget, 8 ≤ budget → pushed.graph.activate budget .pull ⟨2⟩ = pulled) ∧
        pushed.result = .ok () ∧ pulled.result = .ok () ∧
        pushed.sidesOf ⟨1⟩ = [.input, .output] ∧
        pulled.sidesOf ⟨1⟩ = [.output, .input] ∧
        pulled.graph.stats = {
          dispatches := 8
          inputCalls := 2
          outputCalls := 2 } := by
  have hchain : Catalogue.pushChain.IsChain ⟨0⟩ [⟨1⟩] ⟨2⟩ := by
    refine ⟨⟨.refl _, ⟨_, rfl, rfl, rfl⟩, ?_, ⟨_, rfl, rfl⟩, ?_⟩, ?_⟩
    · simp [Catalogue.pushChain, NodeSpec.inputCount]
    · have h₀ : Catalogue.pushChain.Linked 0 1 :=
        ⟨⟨"capture", "mix"⟩, by decide, ⟨0, 0⟩, ⟨1, 0⟩, by rfl, by rfl, rfl, rfl⟩
      have h₁ : Catalogue.pushChain.Linked 1 2 :=
        ⟨⟨"mix", "out"⟩, by decide, ⟨1, 0⟩, ⟨2, 0⟩, by rfl, by rfl, rfl, rfl⟩
      simpa using ⟨h₀, h₁⟩
    · simp [Catalogue.pushChain]
  obtain ⟨a, ha, -⟩ :=
    Catalogue.exists_build (d := Catalogue.pushChain) (by simp [Catalogue.all])
  obtain ⟨pushed, hpushed, hpush, -, -, -, hside, -⟩ :=
    activate_chain ha hchain .start .push
  have hg : a.graph.Activated (fun mode n r => n = mode.driver ⟨0⟩ ⟨2⟩ ∧
      r ≠ .error .tooManyTurns) pushed.graph := by
    have hlast := hpushed 8 (Nat.le_refl 8)
    rw [← hlast] at hpush ⊢
    exact .activate 8 .start ⟨rfl, by rw [hpush]; simp⟩
  obtain ⟨pulled, hpulled, hpull, -, -, -, hside', -, -, -, hstats⟩ :=
    activate_chain ha hchain hg .pull
  exact ⟨a, ha, pushed, pulled, hpushed, hpulled, hpush, hpull, hside _ (by simp),
    hside' _ (by simp), hstats⟩

end Graph

end MediaGraph

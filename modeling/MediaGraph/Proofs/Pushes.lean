/-
Pushes of chains in which inputs may be optional.

* `IsPath.pipeline`: the nodes of the graph that is built from a chain form one;
* `Description.Unbroken`: no input of some nodes is optional;
* `Graph.push_received`: after any pulls of the sink, a push of the source or of a
  mixer hands the sink one buffer exactly if it is the source or its input holds
  data, and no input after it is optional;
* `Graph.push_withheld`: so not every push reaches the sink.
-/
import MediaGraph.Proofs.Chain
import MediaGraph.Proofs.Chain.Pipelines

namespace MediaGraph

/-! ### Built chains -/

/-- A node with one input that is accepted has no optional inputs exactly if this one
is not optional. -/
lemma NodeSpec.optionalInputs_eq_nil_iff {spec : NodeSpec}
    (h : spec.optionalFlaws = []) (hone : spec.inputCount = 1) :
    spec.optionalInputs = [] ↔ spec.isOptional 0 = false := by
  simp only [optionalFlaws, hone, List.map_eq_nil_iff, List.filter_eq_nil_iff,
    decide_eq_true_eq, Nat.not_le, Nat.lt_one_iff] at h
  rw [isOptional, ← Bool.not_eq_true, List.contains_iff_mem, List.eq_nil_iff_forall_not_mem]
  exact ⟨fun hnil => hnil 0, fun hzero k hk => hzero (h k hk ▸ hk)⟩

namespace Description

/-- No input of these nodes is optional. -/
def Unbroken (d : Description) (l : List NodeId) : Prop :=
  ∀ m ∈ l, ∀ spec, d.nodes[m.index]? = some spec → spec.optionalInputs = []

/-- A script may push nodes that are not asynchronous. -/
lemma async_of_allows_push {d : Description} {i : Nat} {spec : NodeSpec}
    (h : d.Allows .push i) (hi : d.nodes[i]? = some spec) : spec.async = false := by
  obtain ⟨spec', hi', hallows⟩ := h
  obtain rfl : spec = spec' := by simpa [hi] using hi'
  cases hk : spec.kind <;> simp_all [stepFlaw?]

namespace IsPath

variable {d : Description} {N : Network} {S K m : NodeId} {mixers l : List NodeId}
  {p : PortId}

/-- A source, a mixer and a sink. -/
lemma of_three {source mixer sink : NodeSpec} (hnodes : d.nodes = [source, mixer, sink])
    (hsource : source.kind = .source) (hsync : source.async = false)
    (hmixer : mixer.kind = .mixer) (hone : mixer.inputCount = 1)
    (hsink : sink.kind = .sink) (h₀ : d.Linked 0 1) (h₁ : d.Linked 1 2) :
    d.IsPath ⟨0⟩ [⟨1⟩] ⟨2⟩ where
  nodes := by
    rw [hnodes]
    rfl
  source := ⟨source, by rw [hnodes]; rfl, hsource, hsync⟩
  mixer := by
    rintro m hm
    obtain rfl := List.mem_singleton.mp hm
    exact ⟨mixer, by rw [hnodes]; rfl, hmixer, hone⟩
  sink := ⟨sink, by rw [hnodes]; rfl, hsink⟩
  linked := by simpa using ⟨h₀, h₁⟩

lemma pipeline (h : d.IsPath S mixers K) (hN : d.Realized N)
    (hlinks : ∀ {i j}, d.Linked i j → N.Feeds ⟨i⟩ ⟨j⟩) :
    N.Pipeline d S mixers K where
  pipes := h.isChain_pipes hN hlinks
  nodup := h.nodup
  source := h.kind_source
  mixer _ hm := h.kind_mixer hm
  sink := h.kind_sink
  asymm := h.asymm hN hlinks

/-- All inputs of a chain are linked. -/
lemma isSome_feeder (h : d.IsPath S mixers K) (hN : d.Realized N)
    (hlinks : ∀ {i j}, d.Linked i j → N.Feeds ⟨i⟩ ⟨j⟩) (hp : p ∈ N.inputs m) :
    (N.feeder p).isSome = true := by
  obtain ⟨spec, hspec⟩ := hN.exists_spec_of_input hp
  have hlength := hN.inputs hspec
  obtain ⟨hm, -⟩ := h.inputCount_eq hspec fun hzero => by
    rw [hzero, List.length_eq_zero_iff] at hlength
    simp [hlength] at hp
  obtain ⟨x, q, hxm⟩ := Network.exists_rel_of_mem_isChain (h.isChain_pipes hN hlinks) hm
  obtain rfl : p = q := by simpa [hxm.inputs] using hp
  rw [(hxm.joins none).feeder hN.proper]
  rfl

/-- The inputs of nodes of a chain are optional where the description says so. -/
lemma unbroken_iff (h : d.IsPath S mixers K) (hN : d.Realized N)
    (hlinks : ∀ {i j}, d.Linked i j → N.Feeds ⟨i⟩ ⟨j⟩)
    (hl : ∀ m ∈ l, m ∈ mixers ++ [K]) : N.Unbroken l ↔ d.Unbroken l := by
  refine forall₂_congr fun m hm => ?_
  obtain ⟨x, p, hxm⟩ :=
    Network.exists_rel_of_mem_isChain (h.isChain_pipes hN hlinks) (hl m hm)
  obtain ⟨spec, hspec⟩ := hN.exists_spec_of_input (hxm.joins none).mem_inputs
  have hone : spec.inputCount = 1 := by rw [← hN.inputs hspec, hxm.inputs]; rfl
  have hsettings := hN.accepted.settings hspec
  simp only [NodeSpec.settingFlaws, List.append_eq_nil_iff] at hsettings
  have hp : N.optional p = spec.isOptional 0 := hN.optional hspec (by simp [hxm.inputs])
  simp only [hxm.inputs, List.mem_singleton, forall_eq, hp, hspec, Option.some.injEq,
    forall_eq']
  exact (NodeSpec.optionalInputs_eq_nil_iff hsettings.1.2 hone).symm

end IsPath

end Description

namespace Graph

variable {τ : Type} [Processor τ] {d : Description} {a : Assembly τ}
  {g : Graph (Adapter τ)} {S K n : NodeId} {mixers above below : List NodeId}

/-- After any pulls of the sink of a chain, a push of the source or of a mixer that is
not asynchronous ends well within four turns for each mixer and four more. It hands
the sink one buffer if it is the source that was pushed, or a mixer whose input holds
a buffer since an earlier pull, and no input after it is optional. Otherwise the sink
gets nothing. -/
theorem push_received (hok : Assembly.build d = .ok a) (hd : d.IsPath S mixers K)
    (hg : a.graph.Activated (fun mode n r => (mode = .pull ∧ n = K) ∧
      r ≠ .error .tooManyTurns) g)
    (hn : S :: mixers = above ++ n :: below) (hpush : d.Allows .push n.index) :
    ∃ out : Activation (Adapter τ),
      (∀ budget, 4 * mixers.length + 4 ≤ budget →
        g.activate budget .push n = out) ∧
      out.result = .ok () ∧
      ∃ snk snk', g.processor? K = some (.sink snk) ∧
        out.graph.processor? K = some (.sink snk') ∧
        ((n = S ∨ ∃ p ∈ g.inputsOf n, g.hasData p = true) ∧
            d.Unbroken (below ++ [K]) → snk'.received = snk.received + 1) ∧
        (¬ ((n = S ∨ ∃ p ∈ g.inputsOf n, g.hasData p = true) ∧
            d.Unbroken (below ++ [K])) → snk' = snk) := by
  obtain ⟨Λ, s₀, hΛ, h₀, hN, huntouched⟩ := Assembly.shows_of_build hok
  have hlinks : ∀ {i j}, d.Linked i j → Λ.network.Feeds ⟨i⟩ ⟨j⟩ := fun hij =>
    h₀.feeds_iff.mp (Assembly.feeds_of_linked hok hij)
  have hpipeline := hd.pipeline hN hlinks
  -- between the pulls only optional inputs hold data
  obtain ⟨s, hs, hsteady, hnone⟩ := Activated.shows
    (P := fun s => Network.Steady d Λ.network none none s ∧
      ∀ m, s.queued m = false) hΛ h₀
    ⟨.of_untouched hN huntouched, huntouched.queued⟩ (by
      rintro s t mode n budget r calls ⟨hsteady, hnone⟩ ⟨⟨rfl, rfl⟩, hr⟩ hends
      obtain ⟨k, calls', t', hforced, ht', hnone'⟩ := hpipeline.pulled hN hsteady hnone
      obtain ⟨-, -, rfl⟩ := hends.eq_of_forced hforced hnone' (Or.inr hr)
      exact ⟨ht'.clear, fun _ => rfl⟩) hg
  -- the push
  obtain ⟨spec, hspec, -⟩ := id hpush
  have hsync : Λ.network.async n = false := by
    rw [hN.async hspec, Description.async_of_allows_push hpush hspec]
  obtain ⟨snk, hsnk⟩ := hsteady.exists_sink hd.kind_sink
  obtain ⟨k, hk, calls, t, hforced, hnone', snk', hsnk', hone, hzero⟩ :=
    hpipeline.pushed hN hn hsync hsteady hnone hsnk
  obtain ⟨node, hnode⟩ := hsteady.sound.staffed.exists_node hs hspec
  obtain ⟨u, hends, hu⟩ := hs.activate hΛ (hs.node hnode) k .push
  obtain ⟨hr, -, rfl⟩ := hends.eq_of_forced hforced hnone' (Or.inl (Nat.le_refl k))
  have hbelow : ∀ m ∈ below, m ∈ mixers := by
    rcases above with _ | ⟨S', above⟩ <;> obtain ⟨-, rfl⟩ := List.cons_eq_cons.mp hn
    · exact fun _ hm => hm
    · exact fun m hm => by simp [hm]
  have hunbroken := hd.unbroken_iff hN hlinks (l := below ++ [K]) fun m hm => by
    simpa using (List.mem_append.mp hm).imp_left (hbelow m)
  have hdata : (∃ p ∈ Λ.network.inputs n, (s.slot p).hasData = true) ↔
      ∃ p ∈ g.inputsOf n, g.hasData p = true := by
    rw [hs.inputsOf_eq]
    refine exists_congr fun p => and_congr_right fun hp => ?_
    rw [hs.hasData_eq hΛ hp, hd.isSome_feeder hN hlinks hp, Bool.true_and]
  rw [hunbroken, hdata] at hone hzero
  refine ⟨g.activate k .push n, fun budget hb =>
    activate_eq_of_le (hk.trans hb) (by simp [hr]), hr, snk, snk', ?_, ?_, hone, hzero⟩
  · rw [hs.processor?_eq, hsnk]
  · rw [hu.processor?_eq]
    exact hsnk'

/-- A source, a mixer that does not wait for its only input, and a sink. -/
def unawaited : Description where
  name := "unawaited"
  nodes := [
    { name := "capture", kind := .source },
    { name := "mix", kind := .mixer, inputs := some 1, requiredIn := some 1,
      optionalInputs := [0] },
    { name := "out", kind := .sink }]
  links := [⟨"capture", "mix"⟩, ⟨"mix", "out"⟩]
  script := Catalogue.pulls

lemma isPath_unawaited : unawaited.IsPath ⟨0⟩ [⟨1⟩] ⟨2⟩ :=
  .of_three rfl rfl rfl rfl (by decide) rfl
    ⟨⟨"capture", "mix"⟩, by decide, ⟨0, 0⟩, ⟨1, 0⟩, by rfl, by rfl, rfl, rfl⟩
    ⟨⟨"mix", "out"⟩, by decide, ⟨1, 0⟩, ⟨2, 0⟩, by rfl, by rfl, rfl, rfl⟩

/-- The pull of the sink leaves a buffer in the input of the mixer. After that the push
of the mixer reaches the sink, and that of the source does not. -/
theorem push_received_unawaited :
    ∃ a : Assembly Empty, Assembly.build unawaited = .ok a ∧
      let g := (a.graph.pull ⟨2⟩).graph
      (a.graph.pull ⟨2⟩).result = .ok () ∧
      (∃ out : Activation (Adapter Empty),
        (∀ budget, 8 ≤ budget → g.activate budget .push ⟨1⟩ = out) ∧
        ∃ snk snk', g.processor? ⟨2⟩ = some (.sink snk) ∧
          out.graph.processor? ⟨2⟩ = some (.sink snk') ∧
          snk'.received = snk.received + 1) ∧
      ∃ out : Activation (Adapter Empty),
        (∀ budget, 8 ≤ budget → g.activate budget .push ⟨0⟩ = out) ∧
        ∃ snk snk', g.processor? ⟨2⟩ = some (.sink snk) ∧
          out.graph.processor? ⟨2⟩ = some (.sink snk') ∧ snk' = snk := by
  have hrun : ((Assembly.build (τ := Empty) unawaited).toOption.any fun a =>
      (a.graph.pull ⟨2⟩).result = .ok () ∧
      ∃ p ∈ (a.graph.pull ⟨2⟩).graph.inputsOf ⟨1⟩,
        (a.graph.pull ⟨2⟩).graph.hasData p = true) = true := by
    decide +kernel
  rcases ha : Assembly.build (τ := Empty) unawaited with e | a
  · simp [ha, Except.toOption] at hrun
  simp only [ha, Except.toOption, Option.any_some, decide_eq_true_eq] at hrun
  obtain ⟨hpull, hdata⟩ := hrun
  have hg : a.graph.Activated (fun mode n r => (mode = .pull ∧ n = ⟨2⟩) ∧
      r ≠ .error .tooManyTurns) (a.graph.pull ⟨2⟩).graph :=
    .activate turnLimit .start ⟨⟨rfl, rfl⟩, by
      rw [pull] at hpull
      rw [hpull]
      simp⟩
  have hsource : ⟨0⟩ :: [⟨1⟩] = [] ++ (⟨0⟩ : NodeId) :: [⟨1⟩] := rfl
  have hmixer : ⟨0⟩ :: [⟨1⟩] = [⟨0⟩] ++ (⟨1⟩ : NodeId) :: [] := rfl
  obtain ⟨out, hout, -, snk, snk', hsnk, hsnk', hreceived, -⟩ :=
    push_received ha isPath_unawaited hg hmixer ⟨_, rfl, by decide⟩
  obtain ⟨out₀, hout₀, -, snk₀, snk₀', hsnk₀, hsnk₀', -, hnothing⟩ :=
    push_received ha isPath_unawaited hg hsource ⟨_, rfl, by decide⟩
  refine ⟨a, rfl, hpull, ⟨out, hout, snk, snk', hsnk, hsnk', hreceived ⟨Or.inr hdata, ?_⟩⟩,
    out₀, hout₀, snk₀, snk₀', hsnk₀, hsnk₀', hnothing ?_⟩
  · simp [Description.Unbroken, unawaited]
  · simp [Description.Unbroken, unawaited]

lemma isPath_pushChain : Catalogue.pushChain.IsPath ⟨0⟩ [⟨1⟩] ⟨2⟩ :=
  .of_three rfl rfl rfl rfl (by decide) rfl
    ⟨⟨"capture", "mix"⟩, by decide, ⟨0, 0⟩, ⟨1, 0⟩, by rfl, by rfl, rfl, rfl⟩
    ⟨⟨"mix", "out"⟩, by decide, ⟨1, 0⟩, ⟨2, 0⟩, by rfl, by rfl, rfl, rfl⟩

/-- A push of `n` that ends well hands the sink `K` at least one buffer. -/
def PushReaches (g : Graph (Adapter τ)) (n K : NodeId) : Prop :=
  (g.push n).result = .ok () →
    ∃ snk snk', g.processor? K = some (.sink snk) ∧
      (g.push n).graph.processor? K = some (.sink snk') ∧
      snk.received + 1 ≤ snk'.received

lemma not_pushReaches (hpush : (g.push n).result = .ok ())
    (hsink : (g.push n).graph.processor? K = some (.sink {})) : ¬ g.PushReaches n K := by
  intro h
  obtain ⟨snk, snk', -, hsnk', hreceived⟩ := h hpush
  obtain rfl : {} = snk' := by simpa [hsink] using hsnk'
  simp at hreceived

/-- Not every push that ends well reaches the sink. As the driver, a mixer that had to
ask for data does not announce what it made of it, and the buffer of a source does not
get past an optional input. -/
theorem push_withheld :
    (¬ ∀ (d : Description) (a : Assembly Empty) (g : Graph (Adapter Empty))
        (S K n : NodeId) (mixers : List NodeId), Assembly.build d = .ok a →
      d.IsPath S mixers K →
      a.graph.Activated (fun mode n r => (mode = .pull ∧ n = K) ∧
        r ≠ .error .tooManyTurns) g →
      n ∈ mixers → d.Allows .push n.index → g.PushReaches n K) ∧
    ¬ ∀ (d : Description) (a : Assembly Empty) (g : Graph (Adapter Empty))
        (S K : NodeId) (mixers : List NodeId), Assembly.build d = .ok a →
      d.IsPath S mixers K → 1 ≤ mixers.length →
      a.graph.Activated (fun mode n r => (mode = .pull ∧ n = K) ∧
        r ≠ .error .tooManyTurns) g →
      g.PushReaches S K := by
  have hmixer : ((Assembly.build (τ := Empty) Catalogue.pushChain).toOption.any fun a =>
      (a.graph.push ⟨1⟩).result = .ok () ∧
      (a.graph.push ⟨1⟩).graph.processor? ⟨2⟩ = some (.sink {})) = true := by
    decide +kernel
  have hsource : ((Assembly.build (τ := Empty) unawaited).toOption.any fun a =>
      (a.graph.push ⟨0⟩).result = .ok () ∧
      (a.graph.push ⟨0⟩).graph.processor? ⟨2⟩ = some (.sink {})) = true := by
    decide +kernel
  refine ⟨fun h => ?_, fun h => ?_⟩
  · rcases ha : Assembly.build (τ := Empty) Catalogue.pushChain with e | a
    · simp [ha, Except.toOption] at hmixer
    simp only [ha, Except.toOption, Option.any_some, decide_eq_true_eq] at hmixer
    exact not_pushReaches hmixer.1 hmixer.2 (h _ a a.graph ⟨0⟩ ⟨2⟩ ⟨1⟩ [⟨1⟩] ha
      isPath_pushChain .start (by simp) ⟨_, rfl, by decide⟩)
  · rcases ha : Assembly.build (τ := Empty) unawaited with e | a
    · simp [ha, Except.toOption] at hsource
    simp only [ha, Except.toOption, Option.any_some, decide_eq_true_eq] at hsource
    exact not_pushReaches hsource.1 hsource.2 (h _ a a.graph ⟨0⟩ ⟨2⟩ [⟨1⟩] ha
      isPath_unawaited (by simp) .start)

end Graph

end MediaGraph

/-
What a pull of a sink does after any activations.

* `Graph.Delivers`: a node makes output when it is asked: all its inputs hold
  data, or none does and all that feed it deliver;
* `Graph.Served`: the input of a sink is empty, and what feeds it delivers;
* `Graph.pull_served_iff`: when all ports are linked, a pull of a sink ends well
  whatever was activated before, and hands it a buffer exactly if it is served;
* `Graph.pull_not_received`: that is not always so.
-/
import MediaGraph.Proofs.WellFed

namespace MediaGraph.Graph

/-! ### Nodes that deliver -/

section Delivers

variable {σ : Type} {g : Graph σ} {Λ : Layout} {s : Flow σ} {n K : NodeId}

/-- A node makes output when it is asked: all its inputs hold data, or none does
and all that feed it deliver. -/
inductive Delivers (g : Graph σ) : NodeId → Prop
  | full {n : NodeId} : (∀ p ∈ g.inputsOf n, g.hasData p = true) → Delivers g n
  | fed {n : NodeId} : (∀ p ∈ g.inputsOf n, g.hasData p = false) →
      (∀ p ∈ g.inputsOf n, ∀ x, g.feeder? p = some x → Delivers g x) →
      Delivers g n

/-- The input of a sink is empty, and what feeds it delivers. -/
def Served (g : Graph σ) (K : NodeId) : Prop :=
  ∀ p ∈ g.inputsOf K, g.hasData p = false ∧
    ∀ x, g.feeder? p = some x → g.Delivers x

/-- What a linked input holds is what its slot holds. -/
lemma Shows.hasData_eq_full (hΛ : Λ.Proper) (h : g.Shows Λ none s)
    (hlinked : ∀ n, ∀ p ∈ Λ.network.inputs n, (Λ.network.feeder p).isSome = true)
    {p : PortId} (hp : p ∈ Λ.network.inputs n) : g.hasData p = s.full p := by
  rw [h.hasData_eq hΛ hp, hlinked n p hp, Bool.true_and, Flow.full]

/-- The same nodes deliver in the graph and in its network. -/
lemma Shows.delivers_iff (hΛ : Λ.Proper) (h : g.Shows Λ none s)
    (hlinked : ∀ n, ∀ p ∈ Λ.network.inputs n, (Λ.network.feeder p).isSome = true) :
    g.Delivers n ↔ Λ.network.Delivers s.full n := by
  have hdata : ∀ {n p}, p ∈ Λ.network.inputs n → g.hasData p = s.full p :=
    fun hp => h.hasData_eq_full hΛ hlinked hp
  constructor
  · intro hd
    induction hd with
    | full hfull =>
        rw [h.inputsOf_eq] at hfull
        exact .full fun p hp => by rw [← hdata hp, hfull p hp]
    | fed hnone _ ih =>
        rw [h.inputsOf_eq] at hnone ih
        refine .fed (fun p hp => by rw [← hdata hp, hnone p hp]) fun p hp x hx => ?_
        exact ih p hp x (by rwa [h.feeder?_eq])
  · intro hd
    induction hd with
    | full hfull =>
        refine .full fun p hp => ?_
        rw [h.inputsOf_eq] at hp
        rw [hdata hp, hfull p hp]
    | fed hnone _ ih =>
        refine .fed (fun p hp => ?_) fun p hp x hx => ?_
        · rw [h.inputsOf_eq] at hp
          rw [hdata hp, hnone p hp]
        · rw [h.inputsOf_eq] at hp
          exact ih p hp x (by rwa [← h.feeder?_eq])

/-- The same sinks are served in the graph and in its network. -/
lemma Shows.served_iff (hΛ : Λ.Proper) (h : g.Shows Λ none s)
    (hlinked : ∀ n, ∀ p ∈ Λ.network.inputs n, (Λ.network.feeder p).isSome = true) :
    g.Served K ↔ ∀ p ∈ Λ.network.inputs K, s.full p = false ∧
      ∀ x, Λ.network.feeder p = some x → Λ.network.Delivers s.full x := by
  rw [Served, h.inputsOf_eq]
  refine forall₂_congr fun p hp => ?_
  rw [h.hasData_eq_full hΛ hlinked hp, h.feeder?_eq]
  refine and_congr_right fun _ => forall₂_congr fun x _ => ?_
  exact h.delivers_iff hΛ hlinked

end Delivers

/-! ### Pulls -/

variable {τ : Type} {d : Description} {a : Assembly τ} {g : Graph (Adapter τ)}
  {K : NodeId}

/-- After any activations, a pull of a sink ends well if all ports are linked. If
the sink is served, it processes its input once and receives one buffer more;
otherwise it is not called and receives nothing. -/
theorem pull_served_iff [Processor τ]
    {allowed : Mode → NodeId → Except ActivationError Unit → Prop}
    (hok : Assembly.build d = .ok a) (hacyclic : d.Acyclic) (hall : d.AllRequired)
    (hlinked : a.graph.FullyLinked) (hg : a.graph.Activated allowed g)
    (hK : d.isSink K = true) :
    ∃ bound, ∃ out : Activation (Adapter τ),
      (∀ budget, bound ≤ budget → g.activate budget .pull K = out) ∧
      out.result = .ok () ∧
      (g.Served K → out.sidesOf K = [.input]) ∧
      (¬ g.Served K → out.sidesOf K = []) ∧
      ∃ snk snk', g.processor? K = some (.sink snk) ∧
        out.graph.processor? K = some (.sink snk') ∧
        snk'.received = snk.received + (out.sidesOf K).length := by
  obtain ⟨Λ, s₀, hΛ, h₀, hN, huntouched⟩ := Assembly.shows_of_build hok
  obtain ⟨s, hs, hsound, hqueued⟩ := Activated.shows
    (P := fun s => d.Sound Λ.network s ∧ ∀ n, s.queued n = false) hΛ h₀
    ⟨huntouched.sound hN, huntouched.queued⟩
    (fun hP _ hends => ⟨hP.1.ends hN hends, fun _ => rfl⟩) hg
  obtain ⟨T, hpull⟩ := (hlinked.wellFed hok hK).exists_pullable h₀ hN hacyclic
    hall hsound hqueued
  have hT := hpull.above
  -- the run
  obtain ⟨snk, -, hsnk, -⟩ := hpull.start.demand.tally
  obtain ⟨spec, hspec, -⟩ := Description.isSink_iff.mp hK
  obtain ⟨node, hnode⟩ := hsound.staffed.exists_node hs hspec
  let bound := ∑ n ∈ T, Λ.network.quota K n
  obtain ⟨t, hends, ht⟩ := hs.activate hΛ (hs.node hnode) bound .pull
  have hmany := hends.ne_tooManyTurns hpull (Nat.le_succ bound)
  obtain ⟨hr, hnone, k, stage, hpulled⟩ := hends.pulled hpull hmany
  refine ⟨bound, g.activate bound .pull K,
    fun budget hb => activate_eq_of_le hb hmany, hr, ?_⟩
  -- what was called
  have hserved : stage K = .served ↔ g.Served K := by
    rw [hpulled.demand.served_iff hT hnone, hs.served_iff hΛ]
    intro n p hp
    rw [← h₀.feeder?_eq]
    exact h₀.isSome_feeder? hΛ hlinked (by rwa [h₀.inputsOf_eq])
  have hsides : (stage K).sides =
      .output :: (g.activate bound .pull K).sidesOf K := by
    simpa [Activation.sidesOf] using hpulled.logged.sides K
  have hcalls : (g.activate bound .pull K).sidesOf K =
      if stage K = .served then [.input] else [] := by
    have hqueued := hpulled.demand.queued K
    rw [hnone K] at hqueued
    rcases hpulled.demand.sink with hst | hst | hst | hst <;> rw [hst] at hsides
    · simp [hst, Stage.phase?] at hqueued
    · simpa [hst, Stage.sides] using hsides.symm
    · simp [hst, Stage.phase?] at hqueued
    · simpa [hst, Stage.sides] using hsides.symm
  refine ⟨fun h => ?_, fun h => ?_, ?_⟩
  · rw [hcalls, if_pos (hserved.mpr h)]
  · rw [hcalls, if_neg (mt hserved.mp h)]
  · obtain ⟨snk, snk', hsnk, hsnk', hreceived⟩ := hpulled.demand.tally
    refine ⟨snk, snk', by rw [hs.processor?_eq, hsnk],
      by rw [ht.processor?_eq]; exact hsnk', ?_⟩
    rw [hreceived, hcalls]
    split <;> rfl

/-- The pull of the sink behind a mixer of two sources, one of which pushed. -/
theorem pull_served_iff_fanIn :
    ∃ a : Assembly Empty, Assembly.build Catalogue.fanIn = .ok a ∧
      ∃ bound, ∃ out : Activation (Adapter Empty),
        (∀ budget, bound ≤ budget →
          (a.graph.push ⟨0⟩).graph.activate budget .pull ⟨3⟩ = out) ∧
        out.result = .ok () ∧
        ((a.graph.push ⟨0⟩).graph.Served ⟨3⟩ → out.sidesOf ⟨3⟩ = [.input]) ∧
        (¬ (a.graph.push ⟨0⟩).graph.Served ⟨3⟩ → out.sidesOf ⟨3⟩ = []) := by
  have hmem : Catalogue.fanIn ∈ Catalogue.all := by simp [Catalogue.all]
  obtain ⟨a, ha, hlinked⟩ := Catalogue.exists_build hmem
  have hg : a.graph.Activated (fun _ _ _ => True) (a.graph.push ⟨0⟩).graph :=
    .activate turnLimit .start trivial
  obtain ⟨bound, out, hout, hr, hserved, hnot, -⟩ :=
    pull_served_iff ha (Catalogue.acyclic hmem)
      (by simp [Description.AllRequired, Catalogue.fanIn]) hlinked hg (K := ⟨3⟩)
      (by decide)
  exact ⟨a, ha, bound, out, hout, hr, hserved, hnot⟩

/-- Not every pull of a sink that ends well hands it a buffer: a mixer one of
whose two sources pushed waits for both. -/
theorem pull_not_received :
    ¬ ∀ (d : Description) (a : Assembly Empty) (g : Graph (Adapter Empty))
        (K : NodeId), Assembly.build d = .ok a → d.Acyclic → d.AllRequired →
      a.graph.FullyLinked →
      a.graph.Activated (fun mode n r => d.Allows mode n.index ∧
        r ≠ .error .tooManyTurns) g →
      d.isSink K = true → (g.pull K).result = .ok () →
      .input ∈ (g.pull K).sidesOf K := by
  intro h
  have hmem : Catalogue.fanIn ∈ Catalogue.all := by simp [Catalogue.all]
  obtain ⟨a, ha, hlinked⟩ := Catalogue.exists_build hmem
  have hrun : (Assembly.build (τ := Empty) Catalogue.fanIn).toOption.any
      (fun a => (a.graph.push ⟨0⟩).result.isOk &&
        ((a.graph.push ⟨0⟩).graph.pull ⟨3⟩).result.isOk &&
        ((a.graph.push ⟨0⟩).graph.pull ⟨3⟩).sidesOf ⟨3⟩ = []) = true := by
    decide +kernel
  simp only [ha, Except.toOption, Option.any_some, Bool.and_eq_true,
    decide_eq_true_eq] at hrun
  obtain ⟨⟨hpush, hpull⟩, hsides⟩ := hrun
  have hg : a.graph.Activated (fun mode n r =>
      Catalogue.fanIn.Allows mode n.index ∧ r ≠ .error .tooManyTurns)
      (a.graph.push ⟨0⟩).graph := by
    refine .activate turnLimit .start ⟨⟨_, rfl, by decide⟩, fun he => ?_⟩
    rw [push, he] at hpush
    cases hpush
  have hok : ((a.graph.push ⟨0⟩).graph.pull ⟨3⟩).result = .ok () := by
    cases hr : ((a.graph.push ⟨0⟩).graph.pull ⟨3⟩).result with
    | ok => rfl
    | error => simp [hr, Except.isOk, Except.toBool] at hpull
  have := h Catalogue.fanIn a _ ⟨3⟩ ha (Catalogue.acyclic hmem)
    (by simp [Description.AllRequired, Catalogue.fanIn]) hlinked hg (by decide) hok
  simp [hsides] at this

end MediaGraph.Graph

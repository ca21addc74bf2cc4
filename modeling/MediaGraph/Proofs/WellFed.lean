/-
Pulls of well-fed sinks.

* `Description.AllRequired`: no input is optional, and no node says how many inputs
  it requires;
* `Graph.WellFed`: all that leads to a sink is linked;
* `Realized.exists_above`: what is above a well-fed sink;
* `Graph.pull_wellFed`: after any pulls of well-fed sinks, a pull of such a sink
  serves it, with one call of every source above it and two of every mixer.
-/
import Mathlib.Data.Set.Card
import MediaGraph.Proofs.Demand.Pull
import MediaGraph.Proofs.Observation

namespace MediaGraph

/-! ### Well-fed sinks -/

/-- No input is optional, and no node says how many inputs it requires. -/
def Description.AllRequired (d : Description) : Prop :=
  ∀ spec ∈ d.nodes, spec.optionalInputs = [] ∧ spec.requiredIn = none

/-- The kind of a node of the description. -/
def Description.kind? (d : Description) (n : NodeId) : Option NodeKind :=
  d.nodes[n.index]?.map (·.kind)

/-- All inputs of a sink and of the nodes from which a way leads to it are
linked. -/
structure Graph.WellFed {σ : Type} (g : Graph σ) (d : Description) (K : NodeId) :
    Prop where
  sink : d.isSink K = true
  linked : ∀ n, Relation.ReflTransGen g.Feeds n K → ∀ p ∈ g.inputsOf n,
    (g.feeder? p).isSome = true

/-! ### What is above a sink -/

namespace Description.Realized

variable {d : Description} {N : Network} {n x : NodeId} {p : PortId}

/-- What leads to another node is a source or a mixer. -/
lemma kind_of_above (h : d.Realized N) (hn : Relation.TransGen N.Feeds n x) :
    ∃ spec, d.nodes[n.index]? = some spec ∧
      (N.inputs n).length = spec.inputCount ∧ spec.kind ≠ .sink := by
  obtain ⟨c, ⟨p, hp, hf⟩, -⟩ := Relation.TransGen.head'_iff.mp hn
  obtain ⟨spec, hspec, hk⟩ :=
    h.exists_spec_of_target ((h.proper.feeder hp n).mp hf)
  exact ⟨spec, hspec, h.inputs hspec, hk⟩

/-- A node without optional inputs that does not say how many inputs it requires
requires all. -/
lemma required_eq_length (h : d.Realized N) (hall : d.AllRequired) {spec : NodeSpec}
    (hspec : d.nodes[n.index]? = some spec) :
    N.required n = (N.inputs n).length := by
  obtain ⟨hopt, hreq⟩ := hall spec (List.mem_of_getElem? hspec)
  rw [h.required hspec, h.inputs hspec, NodeSpec.requiredCount, hreq]
  simp [NodeSpec.isOptional, hopt]

/-- What is above a sink if all that leads to it is linked. -/
lemma exists_above (h : d.Realized N) (hacyclic : d.Acyclic) (hall : d.AllRequired)
    {K : NodeId} (hK : d.isSink K = true)
    (hlinked : ∀ n, Relation.ReflTransGen N.Feeds n K → ∀ p ∈ N.inputs n,
      (N.feeder p).isSome = true) :
    ∃ T, N.Above K T := by
  classical
  have hbelow : ∀ n, Relation.ReflTransGen N.Feeds n K →
      n.index < d.nodes.length := by
    intro n hn
    obtain ⟨spec, hspec⟩ : ∃ spec, d.nodes[n.index]? = some spec := by
      obtain rfl | ⟨c, ⟨p, hp, hf⟩, -⟩ := hn.cases_head
      · obtain ⟨spec, hspec, -⟩ := isSink_iff.mp hK
        exact ⟨spec, hspec⟩
      · obtain ⟨spec, hspec, -⟩ :=
          h.exists_spec_of_target ((h.proper.feeder hp n).mp hf)
        exact ⟨spec, hspec⟩
    exact (List.getElem?_eq_some_iff.mp hspec).1
  refine ⟨((Finset.range d.nodes.length).image Handle.mk).filter
    fun n => Relation.ReflTransGen N.Feeds n K, ?_⟩
  constructor
  · intro n
    rw [Finset.mem_filter, Finset.mem_image]
    exact ⟨fun hn => hn.2, fun hn => ⟨⟨n.index, by simpa using hbelow n hn, rfl⟩, hn⟩⟩
  · intro n hn
    exact hacyclic n.index (h.transGen_linked hn)
  · intro n hn
    exact hlinked n (Finset.mem_filter.mp hn).2
  · intro n _ p hp
    obtain ⟨spec, hspec⟩ := h.exists_spec_of_input hp
    obtain ⟨k, hk⟩ := List.mem_iff_getElem?.mp hp
    rw [h.optional hspec hk, NodeSpec.isOptional,
      (hall spec (List.mem_of_getElem? hspec)).1]
    rfl
  · intro n _ hin
    obtain ⟨p, hp⟩ := List.exists_mem_of_ne_nil _ hin
    obtain ⟨spec, hspec⟩ := h.exists_spec_of_input hp
    exact h.required_eq_length hall hspec
  · intro c c' p p' x hp hp' hx hx'
    exact h.input_unique hp hx hp' hx'

end Description.Realized

namespace Network

variable {τ : Type} {d : Description} {N : Network} {K n : NodeId}
  {T : Finset NodeId}

/-- The nodes above a sink that have no inputs. -/
def leaves (N : Network) (K : NodeId) (T : Finset NodeId) : Finset NodeId :=
  (T.erase K).filter fun n => N.inputs n = []

/-- The nodes above a sink that have inputs. -/
def branches (N : Network) (K : NodeId) (T : Finset NodeId) : Finset NodeId :=
  (T.erase K).filter fun n => ¬ N.inputs n = []

/-- Summing over a sink and what is above it. -/
lemma Above.sum_eq (hT : N.Above K T) (a b c : Nat) :
    (∑ n ∈ T, if n = K then a else if N.inputs n = [] then b else c) =
      a + b * (N.leaves K T).card + c * (N.branches K T).card := by
  have hrest : (∑ n ∈ T.erase K,
      if n = K then a else if N.inputs n = [] then b else c) =
      ∑ n ∈ T.erase K, if N.inputs n = [] then b else c :=
    Finset.sum_congr rfl fun n hn => if_neg (Finset.ne_of_mem_erase hn)
  rw [← Finset.add_sum_erase T _ hT.sink_mem, if_pos rfl, hrest, Finset.sum_ite,
    Finset.sum_const_nat fun _ _ => rfl, Finset.sum_const_nat fun _ _ => rfl,
    leaves, branches, Nat.mul_comm b, Nat.mul_comm c, Nat.add_assoc]

lemma Above.mem_erase_iff (hT : N.Above K T) :
    n ∈ T.erase K ↔ Relation.TransGen N.Feeds n K := by
  rw [Finset.mem_erase, hT.mem, Relation.reflTransGen_iff_eq_or_transGen]
  constructor
  · rintro ⟨hne, rfl | h⟩
    · exact absurd rfl hne
    · exact h
  · refine fun h => ⟨?_, Or.inr h⟩
    rintro rfl
    exact hT.acyclic n h

/-- What leads to a sink is a source without inputs or a mixer with inputs. -/
lemma source_or_mixer (hN : d.Realized N) {c : NodeId}
    (hn : Relation.TransGen N.Feeds n c) :
    (N.inputs n = [] ∧ d.kind? n = some .source) ∨
      (N.inputs n ≠ [] ∧ d.kind? n = some .mixer) := by
  obtain ⟨spec, hspec, hin, hk⟩ := hN.kind_of_above hn
  rw [Description.kind?, hspec, Option.map_some]
  cases hkind : spec.kind with
  | source =>
      rw [NodeSpec.inputCount, hkind, List.length_eq_zero_iff] at hin
      exact Or.inl ⟨hin, rfl⟩
  | sink => exact absurd hkind hk
  | mixer =>
      have hpos := hN.accepted.inputCount_pos hspec hkind
      rw [← hin, List.length_pos_iff] at hpos
      exact Or.inr ⟨hpos, rfl⟩

/-- What is above a sink without inputs are the sources. -/
lemma mem_leaves (hN : d.Realized N) (hT : N.Above K T) :
    n ∈ N.leaves K T ↔
      Relation.TransGen N.Feeds n K ∧ d.kind? n = some .source := by
  rw [leaves, Finset.mem_filter, hT.mem_erase_iff]
  refine and_congr_right fun hn => ?_
  rcases source_or_mixer hN hn with ⟨hin, hk⟩ | ⟨hin, hk⟩ <;> simp [hin, hk]

/-- What is above a sink with inputs are the mixers. -/
lemma mem_branches (hN : d.Realized N) (hT : N.Above K T) :
    n ∈ N.branches K T ↔
      Relation.TransGen N.Feeds n K ∧ d.kind? n = some .mixer := by
  rw [branches, Finset.mem_filter, hT.mem_erase_iff]
  refine and_congr_right fun hn => ?_
  rcases source_or_mixer hN hn with ⟨hin, hk⟩ | ⟨hin, hk⟩ <;> simp [hin, hk]

/-! ### A pull when no link holds data -/

variable {s t : Flow (Adapter τ)} {stage : NodeId → Stage} {k : Nat}
  {calls : List Callback}

/-- No link holds an unread buffer. -/
def Drained (N : Network) (s : Flow (Adapter τ)) : Prop :=
  ∀ n, ∀ p ∈ N.inputs n, s.full p = false

/-- When no link holds data, everything above the sink delivers. -/
lemma Drained.delivers (hT : N.Above K T) (hs : N.Drained s) (hn : n ∈ T) :
    N.Delivers s.full n := by
  refine hT.induction (fun n hn ih => ?_) hn
  exact .fed (hs n) fun p hp x hx => ih x ⟨p, hp, hx⟩

/-- When no link held data and nobody waits for a turn any more, all above the
sink made output and the sink was served. -/
lemma Demand.stage_eq (hT : N.Above K T) (h : N.Demand K T s stage t)
    (hs : N.Drained s) (hnone : ∀ n, t.queued n = false) (hn : n ∈ T) :
    stage n = if n = K then .served else .settled (decide (N.inputs n = [])) := by
  have hserved : stage K = .served :=
    (h.served_iff hT hnone).mpr fun p hp => ⟨hs K p hp, fun x hx =>
      hs.delivers hT (hT.mem_of_feeds ⟨p, hp, hx⟩ hT.sink_mem)⟩
  have hsettled : ∀ {n}, n ∈ T → ∀ b, stage n = .settled b →
      b = decide (N.inputs n = []) := by
    intro n hn b hb
    have hK : n ≠ K := by
      rintro rfl
      simp [hserved] at hb
    rcases hin : N.inputs n with _ | ⟨p, l⟩
    · cases b with
      | true => simp
      | false =>
          obtain ⟨p, hp, -⟩ := h.short n hn hK (by simp [hb, Stage.isShort])
          simp [hin] at hp
    · have hp : p ∈ N.inputs n := by simp [hin]
      obtain ⟨x, hx⟩ := Option.isSome_iff_exists.mp (hT.linked n hn p hp)
      cases b with
      | true =>
          have := (h.link hn hp hx).of_settled.1 hb
          simp [hs n p hp] at this
      | false => simp
  -- down from the sink, whoever feeds a node that processed inputs made output
  have hpath := (hT.mem n).mp hn
  induction hpath using Relation.ReflTransGen.head_induction_on with
  | refl => rw [hserved, if_pos rfl]
  | @head n c hnc hcK ih =>
      have hc : c ∈ T := (hT.mem c).mpr hcK
      have hnK : n ≠ K := by
        rintro rfl
        exact hT.not_feeds hc hnc
      obtain ⟨p, hp, hf⟩ := hnc
      have hcstage : stage c = .settled false ∨ stage c = .served := by
        rw [ih hc]
        split
        · exact Or.inr rfl
        · have : N.inputs c ≠ [] := List.ne_nil_of_mem hp
          exact Or.inl (by simp [this])
      obtain ⟨-, -, b, hb⟩ := (h.link hc hp hf).of_settled.2 hcstage
      rw [if_neg hnK, hb, hsettled hn b hb]

/-- Calls of one kind, node by node. -/
lemma countP_eq_sum (side : Side) (h : ∀ call ∈ calls, call.node ∈ T) :
    calls.countP (·.side = side) =
      ∑ n ∈ T, ((calls.filter (·.node = n)).map (·.side)).count side := by
  induction calls with
  | nil => simp
  | cons call calls ih =>
      have hone : (∑ n ∈ T, if call.node = n then
          (if call.side = side then 1 else 0) else 0) =
          if call.side = side then 1 else 0 := by
        rw [Finset.sum_ite_eq T, if_pos (h call (by simp))]
      have hrest := ih fun c hc => h c (by simp [hc])
      rw [List.countP_cons, hrest]
      simp only [decide_eq_true_eq]
      rw [← hone, ← Finset.sum_add_distrib]
      refine Finset.sum_congr rfl fun n _ => ?_
      by_cases hn : call.node = n
      · simp [hn, List.count_cons]
      · simp [hn]

/-- The calls of every node in a pull that serves the sink. -/
def callsOf (N : Network) (K : NodeId) (T : Finset NodeId) (n : NodeId) :
    List Side :=
  if n ∈ T then
    if n = K then [.input]
    else if N.inputs n = [] then [.output]
    else [.output, .input]
  else []

namespace Pulled

variable (hs : Pullable d N K T s) (hdrained : N.Drained s)
  (h : Pulled d N K T s k calls stage t) (hnone : ∀ n, t.queued n = false)

include hs hdrained h hnone

/-- The sink was served, and the nodes above it settled. -/
lemma stage_eq {n : NodeId} (hn : n ∈ T) : stage n =
    if n = K then .served else .settled (decide (N.inputs n = [])) :=
  h.demand.stage_eq hs.above hdrained hnone hn

/-- No link holds data afterwards. -/
lemma drained : N.Drained t := by
  intro n p hp
  by_cases hn : n ∈ T
  · obtain ⟨x, hx⟩ := Option.isSome_iff_exists.mp (hs.above.linked n hn p hp)
    have hst : stage n = .settled false ∨ stage n = .served := by
      rw [h.stage_eq hs hdrained hnone hn]
      split
      · exact Or.inr rfl
      · simp [List.ne_nil_of_mem hp]
    obtain ⟨-, hneed, -⟩ := (h.demand.link hn hp hx).of_settled.2 hst
    simp [Flow.full, Slot.hasData, hneed]
  · rw [Flow.full, h.demand.frame n hn p hp]
    exact hdrained n p hp

/-- The calls of a node are those of its stage. -/
lemma sides_calls (n : NodeId) :
    (calls.filter (·.node = n)).map (·.side) = N.callsOf K T n := by
  have hsides := h.logged.sides n
  rw [callsOf]
  by_cases hn : n ∈ T
  · rw [h.stage_eq hs hdrained hnone hn] at hsides
    by_cases hK : n = K
    · subst hK
      simpa [hn, Stage.sides] using hsides.symm
    · by_cases hin : N.inputs n = [] <;>
        simpa [hK, hin, hn, Stage.sides] using hsides.symm
  · have hK : n ≠ K := by
      rintro rfl
      exact hn hs.above.sink_mem
    rw [h.demand.outside n hn] at hsides
    simpa [hK, hn, Stage.sides] using hsides.symm

/-- The calls of one kind, summed up over the nodes of the tree. -/
lemma countP_calls (side : Side) : calls.countP (·.side = side) =
    ∑ n ∈ T, if n = K then [Side.input].count side
      else if N.inputs n = [] then [Side.output].count side
      else [Side.output, Side.input].count side := by
  have hmem : ∀ call ∈ calls, call.node ∈ T := by
    intro call hcall
    by_contra hout
    have hnil := h.sides_calls hs hdrained hnone call.node
    rw [callsOf, if_neg hout, List.map_eq_nil_iff, List.filter_eq_nil_iff] at hnil
    simpa using hnil call hcall
  rw [countP_eq_sum side hmem]
  refine Finset.sum_congr rfl fun n hn => ?_
  rw [h.sides_calls hs hdrained hnone, callsOf, if_pos hn]
  split
  · rfl
  · split <;> rfl

/-- The turns that were taken, summed up over the nodes of the tree. -/
lemma turns_eq : k + 1 =
    ∑ n ∈ T, if n = K then 3 else if N.inputs n = [] then 2 else 4 := by
  rw [← h.logged.turns]
  refine Finset.sum_congr rfl fun n hn => ?_
  rw [h.stage_eq hs hdrained hnone hn]
  split
  · rfl
  · split <;> rename_i hin <;> simp [hin, Stage.turns]

/-- What a pull of a sink does when no link held data. -/
lemma fulfilled :
    N.Drained t ∧
      (∀ n, (calls.filter (·.node = n)).map (·.side) = N.callsOf K T n) ∧
      t.stats = {
        dispatches := 2 + 4 * (N.branches K T).card + 2 * (N.leaves K T).card
        inputCalls := (N.branches K T).card + 1
        outputCalls := (N.branches K T).card + (N.leaves K T).card } := by
  refine ⟨h.drained hs hdrained hnone, h.sides_calls hs hdrained hnone, ?_⟩
  have hturns := h.turns_eq hs hdrained hnone
  have hcount := h.countP_calls hs hdrained hnone
  rw [hs.above.sum_eq] at hturns
  rw [h.stats, hcount, hcount, hs.above.sum_eq, hs.above.sum_eq]
  simp only [ActivationStats.mk.injEq]
  refine ⟨by omega, ?_, ?_⟩
  · simp only [List.count_cons, List.count_nil]
    simp
    omega
  · simp only [List.count_cons, List.count_nil]
    simp
    omega

end Pulled

end Network

/-! ### Pulls of graphs -/

/-- The calls that a node got in an activation. -/
def Activation.sidesOf {σ : Type} (out : Activation σ) (n : NodeId) : List Side :=
  (out.callbacks.filter (·.node = n)).map (·.side)

namespace Graph

variable {τ : Type} {d : Description} {a : Assembly τ} {g : Graph (Adapter τ)}
  {K : NodeId}

/-- The nodes of a kind from which a way leads to `K`. -/
def above {σ : Type} (g : Graph σ) (d : Description) (kind : NodeKind)
    (K : NodeId) : Set NodeId :=
  {n | Relation.TransGen g.Feeds n K ∧ d.kind? n = some kind}

/-- All sinks are well-fed if every port is linked. -/
lemma FullyLinked.wellFed [Processor τ] (hg : a.graph.FullyLinked)
    (hok : Assembly.build d = .ok a) (hK : d.isSink K = true) :
    a.graph.WellFed d K := by
  obtain ⟨Λ, s, hΛ, hs, -⟩ := Assembly.shows_of_build hok
  exact ⟨hK, fun n _ p hp => hs.isSome_feeder? hΛ hg hp⟩

/-- A well-fed sink can be pulled in every sound flow of its network. -/
lemma WellFed.exists_pullable {Λ : Layout} {s₀ s : Flow (Adapter τ)}
    (hK : a.graph.WellFed d K) (h₀ : a.graph.Shows Λ none s₀)
    (hN : d.Realized Λ.network) (hacyclic : d.Acyclic) (hall : d.AllRequired)
    (hsound : d.Sound Λ.network s) (hqueued : ∀ n, s.queued n = false) :
    ∃ T, Network.Pullable d Λ.network K T s := by
  have hfeeds : a.graph.Feeds = Λ.network.Feeds :=
    funext fun x => funext fun c => propext h₀.feeds_iff
  obtain ⟨T, hT⟩ := hN.exists_above hacyclic hall hK.sink fun n hn p hp => by
    rw [← h₀.feeder?_eq]
    exact hK.linked n (hfeeds ▸ hn) p (by rwa [h₀.inputsOf_eq])
  exact ⟨T, hN, hT, hsound, hqueued, hK.sink⟩

/-- After any pulls of well-fed sinks no link of a built graph holds data. -/
lemma Activated.drained [Processor τ] {Λ : Layout} {s₀ : Flow (Adapter τ)}
    (hΛ : Λ.Proper) (h₀ : a.graph.Shows Λ none s₀) (hN : d.Realized Λ.network)
    (huntouched : d.Untouched Λ.network s₀) (hacyclic : d.Acyclic)
    (hall : d.AllRequired)
    (hg : a.graph.Activated (fun mode n r => mode = .pull ∧
      a.graph.WellFed d n ∧ r ≠ .error .tooManyTurns) g) :
    ∃ s, g.Shows Λ none s ∧ d.Sound Λ.network s ∧ (∀ n, s.queued n = false) ∧
      Λ.network.Drained s := by
  refine Activated.shows (P := fun s => d.Sound Λ.network s ∧
    (∀ n, s.queued n = false) ∧ Λ.network.Drained s) hΛ h₀
    ⟨huntouched.sound hN, huntouched.queued, fun n p hp => ?_⟩ ?_ hg
  · rw [Flow.full, huntouched.slot hp]
    split <;> rfl
  · rintro s t mode n budget r calls ⟨hsound, hqueued, hdrained⟩ ⟨rfl, hn, hr⟩ hends
    obtain ⟨T, hs⟩ := hn.exists_pullable h₀ hN hacyclic hall hsound hqueued
    obtain ⟨-, hnone, k, stage, hpulled⟩ := hends.pulled hs hr
    exact ⟨hpulled.sound.congr rfl rfl, fun _ => rfl,
      (hpulled.fulfilled hs hdrained hnone).1⟩

/-- A pull of a well-fed sink, after any pulls of well-fed sinks, ends well.  The
sink receives one buffer more; every mixer above it is asked for output once and
then processes inputs once, every source above it is asked once, the sink
processes its input once, and nobody else is called; a mixer processes its
inputs after the last call of whatever is above it; and the turns and calls are
counted accordingly. -/
theorem pull_wellFed [Processor τ] (hok : Assembly.build d = .ok a)
    (hacyclic : d.Acyclic) (hall : d.AllRequired)
    (hg : a.graph.Activated (fun mode n r => mode = .pull ∧
      a.graph.WellFed d n ∧ r ≠ .error .tooManyTurns) g)
    (hK : a.graph.WellFed d K) {m s : Nat}
    (hm : (a.graph.above d .mixer K).ncard = m)
    (hs : (a.graph.above d .source K).ncard = s) :
    {n | Relation.TransGen a.graph.Feeds n K}.Finite ∧
    ∃ out : Activation (Adapter τ),
      (∀ budget, 2 + 4 * m + 2 * s ≤ budget →
        g.activate budget .pull K = out) ∧
      out.result = .ok () ∧
      (∃ snk snk', g.processor? K = some (.sink snk) ∧
        out.graph.processor? K = some (.sink snk') ∧
        snk'.received = snk.received + 1) ∧
      out.sidesOf K = [.input] ∧
      (∀ n ∈ a.graph.above d .mixer K, out.sidesOf n = [.output, .input]) ∧
      (∀ n ∈ a.graph.above d .source K, out.sidesOf n = [.output]) ∧
      (∀ n, n ≠ K → ¬ Relation.TransGen a.graph.Feeds n K →
        out.sidesOf n = []) ∧
      out.callbacks.Pairwise (fun call call' => call.side = .input →
        ¬ Relation.TransGen a.graph.Feeds call'.node call.node) ∧
      out.graph.stats = {
        dispatches := 2 + 4 * m + 2 * s
        inputCalls := m + 1
        outputCalls := m + s } := by
  obtain ⟨Λ, s₀, hΛ, h₀, hN, huntouched⟩ := Assembly.shows_of_build hok
  have hfeeds : a.graph.Feeds = Λ.network.Feeds :=
    funext fun x => funext fun c => propext h₀.feeds_iff
  obtain ⟨s₁, hs₁, hsound, hqueued, hdrained⟩ :=
    hg.drained hΛ h₀ hN huntouched hacyclic hall
  obtain ⟨T, hpull⟩ := hK.exists_pullable h₀ hN hacyclic hall hsound hqueued
  have hT := hpull.above
  -- the nodes above the sink
  have hmixers : a.graph.above d .mixer K = Λ.network.branches K T := by
    ext n
    rw [above, hfeeds, Set.mem_ofPred_eq, Finset.mem_coe,
      Network.mem_branches hN hT]
  have hsources : a.graph.above d .source K = Λ.network.leaves K T := by
    ext n
    rw [above, hfeeds, Set.mem_ofPred_eq, Finset.mem_coe, Network.mem_leaves hN hT]
  rw [hmixers, Set.ncard_coe_finset] at hm
  rw [hsources, Set.ncard_coe_finset] at hs
  rw [hmixers, hsources, hfeeds]
  have hfinite : {n | Relation.TransGen Λ.network.Feeds n K}.Finite :=
    (T.erase K).finite_toSet.subset fun n hn => hT.mem_erase_iff.mpr hn
  refine ⟨hfinite, g.activate (2 + 4 * m + 2 * s) .pull K, ?_⟩
  -- the run
  obtain ⟨node, hnode⟩ : ∃ node, g.nodes.get? K = some node := by
    obtain ⟨snk, -, hsnk, -⟩ := hpull.start.demand.tally
    have := hs₁.processor?_eq K
    rw [hsnk, Graph.processor?, Option.map_eq_some_iff] at this
    exact this.imp fun _ h => h.1
  obtain ⟨t, hends, ht⟩ := hs₁.activate hΛ (hs₁.node hnode)
    (2 + 4 * m + 2 * s) .pull
  have hquota : ∑ n ∈ T, Λ.network.quota K n ≤ 2 + 4 * m + 2 * s + 1 := by
    have := hT.sum_eq 3 2 4
    simp only [Network.quota]
    omega
  have hmany := hends.ne_tooManyTurns hpull hquota
  obtain ⟨hr, hnone, k, stage, hpulled⟩ := hends.pulled hpull hmany
  obtain ⟨-, hcalls, hstats⟩ := hpulled.fulfilled hpull hdrained hnone
  have hsides : ∀ n, (g.activate (2 + 4 * m + 2 * s) .pull K).sidesOf n =
      Λ.network.callsOf K T n := hcalls
  refine ⟨fun budget hb => activate_eq_of_le hb hmany, hr, ?_, ?_, ?_, ?_, ?_,
    hpulled.logged.order, ?_⟩
  · obtain ⟨snk, snk', hsnk, hsnk', hreceived⟩ := hpulled.demand.tally
    refine ⟨snk, snk', by rw [hs₁.processor?_eq, hsnk],
      by rw [ht.processor?_eq]; exact hsnk', ?_⟩
    rw [hreceived, hpulled.demand.stage_eq hT hdrained hnone hT.sink_mem]
    simp
  · rw [hsides, Network.callsOf, if_pos hT.sink_mem, if_pos rfl]
  · intro n hn
    obtain ⟨hn, hin⟩ := Finset.mem_filter.mp hn
    obtain ⟨hne, hn⟩ := Finset.mem_erase.mp hn
    rw [hsides, Network.callsOf, if_pos hn, if_neg hne, if_neg hin]
  · intro n hn
    obtain ⟨hn, hin⟩ := Finset.mem_filter.mp hn
    obtain ⟨hne, hn⟩ := Finset.mem_erase.mp hn
    rw [hsides, Network.callsOf, if_pos hn, if_neg hne, if_pos hin]
  · intro n hne hn
    rw [hsides, Network.callsOf, if_neg]
    intro hnT
    exact hn (hT.mem_erase_iff.mp (Finset.mem_erase.mpr ⟨hne, hnT⟩))
  · have : (g.activate (2 + 4 * m + 2 * s) .pull K).graph.stats = t.stats := by
      rw [← show t.clear.stats = t.stats from rfl, ← ht.flow]
      rfl
    rw [this, hstats, hm, hs]

/-- The first pull of the sink behind a mixer of two sources. -/
theorem pull_wellFed_fanIn :
    ∃ a : Assembly Empty, Assembly.build Catalogue.fanIn = .ok a ∧
      ∃ m s, (a.graph.above Catalogue.fanIn .mixer ⟨3⟩).ncard = m ∧
        (a.graph.above Catalogue.fanIn .source ⟨3⟩).ncard = s ∧
        ∃ out : Activation (Adapter Empty),
          (∀ budget, 2 + 4 * m + 2 * s ≤ budget →
            a.graph.activate budget .pull ⟨3⟩ = out) ∧
          out.result = .ok () ∧ out.sidesOf ⟨3⟩ = [.input] ∧
          out.graph.stats = {
            dispatches := 2 + 4 * m + 2 * s
            inputCalls := m + 1
            outputCalls := m + s } := by
  have hmem : Catalogue.fanIn ∈ Catalogue.all := by simp [Catalogue.all]
  obtain ⟨a, ha, hlinked⟩ := Catalogue.exists_build hmem
  have hK : a.graph.WellFed Catalogue.fanIn ⟨3⟩ :=
    FullyLinked.wellFed hlinked ha (by decide)
  obtain ⟨-, out, hout, hr, -, hside, -, -, -, -, hstats⟩ :=
    pull_wellFed ha (Catalogue.acyclic hmem)
      (by simp [Description.AllRequired, Catalogue.fanIn]) .start hK rfl rfl
  exact ⟨a, ha, _, _, rfl, rfl, out, hout, hr, hside, hstats⟩

end Graph

end MediaGraph

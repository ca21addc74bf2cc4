/-
Activations that end, and one that does not.

* `Network.exists_endless`: a run of a flow at rest that does not end goes on as
  an endless run;
* `Graph.activate_ends`: an activation ends, well or with a failed call, if its
  driver is a sink, if every node below the driver needs what comes from there, or
  if no sink below a driver that is not asynchronous is supplied without it;
* `Description.AllRequired.gated`: the second holds if no input is optional and no node
  says how many inputs it requires;
* `Shows.settle_line`: no number of turns is enough once a chain to which the
  driver does not belong asks for data;
* `Graph.push_never_ends`: a push into an optional input comes to that.
-/
import MediaGraph.Proofs.Chain.Waves
import MediaGraph.Proofs.Endless.Gated
import MediaGraph.Proofs.WellFed

namespace MediaGraph

/-! ### Runs that do not end -/

namespace Network

variable {τ : Type} [Processor τ] {d : Description} {N : Network} {D : NodeId}
  {s : Flow (Adapter τ)} {n : NodeId}

/-- A node that waits for a turn reaches a node below the driver. -/
def Joined (N : Network) (D : NodeId) (s : Flow (Adapter τ)) : Prop :=
  ∀ n, s.queued n = true →
    ∃ r, Relation.ReflTransGen N.Feeds D r ∧ Relation.ReflTransGen N.Feeds n r

omit [Processor τ] in
lemma joined_start (hnone : ∀ n, s.queued n = false) (mode : Mode) :
    Joined N D (s.start mode D) := by
  intro n hn
  obtain ⟨rfl, -⟩ := Flow.waits_start hnone hn
  exact ⟨n, .refl, .refl⟩

omit [Processor τ] in
/-- A node that reaches a node below the driver is one of the description. -/
lemma lt_of_joined (hN : d.Realized N) (hD : D.index < d.nodes.length)
    {r : NodeId} (hDr : Relation.ReflTransGen N.Feeds D r)
    (hnr : Relation.ReflTransGen N.Feeds n r) : n.index < d.nodes.length := by
  obtain rfl | ⟨m, hm, -⟩ := hnr.cases_head
  · obtain rfl | ⟨m, -, hm⟩ := hDr.cases_tail
    · exact hD
    · exact (hN.lt_of_feeds hm).2
  · exact (hN.lt_of_feeds hm).1

omit [Processor τ] in
/-- After a turn too, whoever waits reaches a node below the driver. -/
lemma Joined.turns (hN : d.Realized N) {u : Flow (Adapter τ)} {w : NodeId}
    (h : Joined N D s) (hw : s.queued w = true)
    (ht : N.Turns (some D) w s u) : Joined N D u := by
  intro n hn
  obtain ⟨r, hDr, hwr⟩ := h w hw
  rcases eq_or_ne n w with rfl | hne
  · exact ⟨r, hDr, hwr⟩
  · rcases ht.queued_other hN.proper hne hn with ⟨hq, -⟩ | ⟨-, hasks, -⟩ | ⟨hwn, -⟩
    · exact h n hq
    · exact ⟨r, hDr, .head (feeds_of_asksIn _ _ hasks) hwr⟩
    · obtain rfl | ⟨m, hwm, hmr⟩ := hwr.cases_head
      · exact ⟨n, hDr.tail hwn, .refl⟩
      · exact ⟨r, hDr, by rwa [hN.feeds_unique hwn hwm]⟩

/-- A node that waits to check its inputs asked for all that are drained. -/
def Voiced (N : Network) (s : Flow (Adapter τ)) (n : NodeId) : Prop :=
  s.queued n = true → s.phase n = .checkInput → ∀ q ∈ N.inputs n,
    (N.feeder q).isSome = true → (s.slot q).status ≠ .ok

omit [Processor τ] in
/-- If that is true of all nodes but the one whose turn it is, then of all nodes
after the turn. -/
lemma Voiced.turns (hN : N.Proper) {u : Flow (Adapter τ)} {w : NodeId}
    (h : ∀ n ≠ w, Voiced N s n) (ht : N.Turns (some D) w s u) (n : NodeId) :
    Voiced N u n := by
  intro hn hφ q hq hf
  rcases eq_or_ne n w with rfl | hne
  · exact ht.asked hN hn hφ hq hf
  · rcases ht.queued_other hN hne hn with ⟨hq', hp⟩ | ⟨-, -, hp⟩ | ⟨-, hp⟩
    · exact ht.status_ne_ok hN (h n hne hq' (hp ▸ hφ) q hq hf)
    · simp [hp] at hφ
    · simp [hp] at hφ

/-- A run that does not end, from a flow in which nobody waited, is endless. -/
theorem exists_endless (hN : d.Realized N) (hacyclic : d.Acyclic)
    (hstaffed : d.Staffed s) (hcounting : N.Counting s)
    (hnone : ∀ n, s.queued n = false) (hD : D.index < d.nodes.length) {mode : Mode}
    {t : ℕ → Flow (Adapter τ)} (h₀ : t 0 = s.start mode D)
    (hstep : ∀ i, ∃ n call, (t i).queued n = true ∧
      N.serve (some D) n (t i) = ⟨t (i + 1), call, none⟩) :
    ∃ turn, N.Endless d D t turn := by
  choose turn call hqueued hserve using hstep
  have hstaffed : ∀ i, d.Staffed (t i) := by
    intro i
    induction i with
    | zero =>
        rw [h₀]
        exact ⟨hstaffed.kind, hstaffed.outside⟩
    | succ i ih =>
        have := ih.serve hN (some D) (turn i)
        rwa [hserve] at this
  have hturns : ∀ i, Joined N D (t i) →
      N.Serves (some D) (turn i) (t i) ⟨t (i + 1), call i, none⟩ ∧
        N.Turns (some D) (turn i) (t i) (t (i + 1)) := by
    intro i hi
    obtain ⟨r, hDr, hr⟩ := hi (turn i) (hqueued i)
    obtain ⟨x, hx, -⟩ :=
      (hstaffed i).kind (List.getElem?_eq_getElem (lt_of_joined hN hD hDr hr))
    have hserves :=
      serves hN.proper (some D) hx ((hstaffed i).suits hN hx)
    rw [hserve] at hserves
    exact ⟨hserves, hserves.turns hN.proper rfl
      fun x hx => (hstaffed i).suits hN hx⟩
  have hjoined : ∀ i, Joined N D (t i) := by
    intro i
    induction i with
    | zero =>
        rw [h₀]
        exact joined_start hnone mode
    | succ i ih => exact ih.turns hN (hqueued i) (hturns i ih).2
  refine ⟨turn, hN, hacyclic, fun i => ?_, hqueued,
    fun i => (hturns i (hjoined i)).2, fun i => ?_, hstaffed, hjoined, ?_⟩
  · obtain ⟨r, hDr, hr⟩ := hjoined i (turn i) (hqueued i)
    exact lt_of_joined hN hD hDr hr
  · induction i with
    | zero =>
        rw [h₀]
        exact hcounting.start hnone mode D
    | succ i ih => exact ih.serves hN.proper (hturns i (hjoined i)).1
  · intro i
    induction i with
    | zero =>
        refine Voiced.turns hN.proper (fun n hne hn => ?_) (hturns 0 (hjoined 0)).2
        have hturn := hqueued 0
        rw [h₀] at hn hturn
        exact absurd ((Flow.waits_start hnone hn).1.trans
          (Flow.waits_start hnone hturn).1.symm) hne
    | succ i ih =>
        exact Voiced.turns hN.proper (fun n _ => ih n)
          (hturns (i + 1) (hjoined (i + 1))).2

/-- A turn fails only through its call. -/
lemma failure_serve (hN : d.Realized N) (hs : d.Staffed s) (D : Option NodeId)
    {e : ActivationError} (he : (N.serve D n s).failure = some e) :
    ∃ cause, e = .processFailed n cause := by
  rcases hs.serves hN D n with hserves | hidle
  · generalize N.serve D n s = v at hserves he
    cases hserves with
    | @call x x' side r slot =>
        cases r with
        | ok => cases he
        | error cause =>
            cases he
            exact ⟨cause, rfl⟩
    | stuck _ hd => simp [hN.demandsNothing_eq_false] at hd
    | check => cases he
    | announce => cases he
  · rw [hidle] at he
    cases he

end Network

/-! ### Activations that end -/

/-- An asynchronous node from which a script may start an activation has inputs:
it is pulled, and so it is no source. -/
lemma Description.Realized.inputs_ne_nil {d : Description} {N : Network}
    (hN : d.Realized N) {mode : Mode} {D : NodeId} (hD : d.Allows mode D.index)
    (hasync : N.async D = true) : N.inputs D ≠ [] := by
  obtain ⟨spec, hspec, hallows⟩ := hD
  intro hin
  have hlength := hN.inputs hspec
  rw [hin, List.length_nil, eq_comm] at hlength
  rw [hN.async hspec] at hasync
  have hsource : spec.kind = .source := by
    cases hk : spec.kind with
    | source => rfl
    | sink => simp [NodeSpec.inputCount, hk] at hlength
    | mixer =>
        have := hN.accepted.inputCount_pos hspec hk
        omega
  cases mode <;> simp [Description.stepFlaw?, hsource, hasync] at hallows

/-- Nodes without optional inputs that do not say how many inputs they require
need all of them. -/
lemma Description.AllRequired.gated {d : Description} {N : Network} (h : d.AllRequired)
    (hN : d.Realized N) (D : NodeId) : N.Gated D := by
  intro m p x _ hp _
  obtain ⟨spec, hspec⟩ := hN.exists_spec_of_input hp
  rw [hN.required_eq_length h hspec]
  refine List.countP_lt_length_iff.mpr ⟨p, hp, ?_⟩
  simp

namespace Graph

variable {τ : Type} [Processor τ] {d : Description} {a : Assembly τ}
  {g : Graph (Adapter τ)} {D : NodeId} {mode : Mode}

/-- After any activations, an activation that a script may perform ends, well or
with a failed call, if its driver is a sink, if every node below the driver needs
what comes from there, or if the driver is not asynchronous and no sink below it is
supplied without it. -/
theorem activate_ends
    {allowed : Mode → NodeId → Except ActivationError Unit → Prop}
    (hok : Assembly.build d = .ok a) (hacyclic : d.Acyclic)
    (hg : a.graph.Activated allowed g) (hD : d.Allows mode D.index)
    (h : d.isSink D = true ∨ a.graph.layout.network.Gated D ∨
      (a.graph.layout.network.async D = false ∧ ∀ K, d.isSink K = true →
        Relation.ReflTransGen a.graph.layout.network.Feeds D K →
        ¬ a.graph.layout.network.Supplied D K)) :
    ∃ bound, ∃ out : Activation (Adapter τ),
      (∀ budget, bound ≤ budget → g.activate budget mode D = out) ∧
      (∀ n, out.graph.ready.contains n = false) ∧
      (out.result = .ok () ∨
        ∃ n cause, out.result = .error (.processFailed n cause)) := by
  obtain ⟨Λ, s₀, hΛ, h₀, hN, huntouched⟩ := Assembly.shows_of_build hok
  rw [h₀.layout] at h
  obtain ⟨s, hs, hsound, hcounting, hnone⟩ := Activated.shows
    (P := fun s => d.Sound Λ.network s ∧ Λ.network.Counting s ∧
      ∀ n, s.queued n = false) hΛ h₀
    ⟨huntouched.sound hN, huntouched.counting, huntouched.queued⟩
    (fun hP _ hends => ⟨hP.1.ends hN hends,
      hP.2.1.ends hN hP.1.staffed hP.2.2 hends, fun _ => rfl⟩) hg
  obtain ⟨spec, hspec, hallows⟩ := hD
  obtain ⟨node, hnode⟩ := hsound.staffed.exists_node hs hspec
  -- some number of turns is enough
  obtain ⟨bound, hbound⟩ : ∃ bound,
      (g.activate bound mode D).result ≠ .error .tooManyTurns := by
    by_contra! hinf
    have hinf : ∀ budget, (settle budget (g.start mode D) []).result =
        .error .tooManyTurns := by
      intro budget
      have := hinf budget
      rwa [activate, hnode] at this
    obtain ⟨t, ht₀, hstep⟩ :=
      (hs.start hΛ (hs.node hnode) mode).exists_infinite hΛ hinf
    obtain ⟨turn, hendless⟩ := Network.exists_endless hN hacyclic hsound.staffed
      hcounting hnone (List.getElem?_eq_some_iff.mp hspec).1 ht₀ hstep
    rcases h with hsink | hgated | ⟨hsync, hsupplied⟩
    · rw [hendless.isSink_driver] at hsink
      cases hsink
    · exact hendless.not_gated (hN.inputs_ne_nil ⟨spec, hspec, hallows⟩) hgated
    · obtain ⟨K, hK, hDK, hsup⟩ := hendless.exists_supplied hsync
      exact hsupplied K hK hDK hsup
  obtain ⟨t, hends, ht⟩ := hs.activate hΛ (hs.node hnode) bound mode
  refine ⟨bound, g.activate bound mode D, fun budget hb =>
    activate_eq_of_le hb hbound, fun n => congrFun (congrArg Flow.queued ht.flow) n,
    ?_⟩
  generalize (g.activate bound mode D).result = r at hbound hends ⊢
  generalize (g.activate bound mode D).callbacks = calls at hends
  cases hends with
  | settled => exact Or.inl rfl
  | @failed _ _ t' _ n _ e hruns _ _ hserve =>
      have hstaffed := hruns.invariant (P := fun t => d.Staffed t)
        ⟨hsound.staffed.kind, hsound.staffed.outside⟩
        fun u m _ hu => hu.serve hN (some D) m
      obtain ⟨cause, rfl⟩ := Network.failure_serve (n := n) hN hstaffed (some D)
        (by rw [hserve])
      exact Or.inr ⟨n, cause, rfl⟩
  | exhausted => exact absurd rfl hbound

/-- The push of one source of a mixer after that of the other one. -/
theorem activate_ends_fanIn :
    ∃ a : Assembly Empty, Assembly.build Catalogue.fanIn = .ok a ∧
      ∃ bound, ∃ out : Activation (Adapter Empty),
        (∀ budget, bound ≤ budget →
          (a.graph.push ⟨0⟩).graph.activate budget .push ⟨1⟩ = out) ∧
        (∀ n, out.graph.ready.contains n = false) ∧
        (out.result = .ok () ∨
          ∃ n cause, out.result = .error (.processFailed n cause)) := by
  have hmem : Catalogue.fanIn ∈ Catalogue.all := by simp [Catalogue.all]
  obtain ⟨a, ha, -⟩ := Catalogue.exists_build hmem
  obtain ⟨Λ, s, -, hs, hN, -⟩ := Assembly.shows_of_build ha
  have hall : Catalogue.fanIn.AllRequired := by
    simp [Description.AllRequired, Catalogue.fanIn]
  have hg : a.graph.Activated (fun _ _ _ => True) (a.graph.push ⟨0⟩).graph :=
    .activate turnLimit .start trivial
  refine ⟨a, ha, activate_ends ha (Catalogue.acyclic hmem) hg ⟨_, rfl, by decide⟩
    (Or.inr (Or.inl ?_))⟩
  rw [hs.layout]
  exact hall.gated hN ⟨1⟩

/-! ### Activations that do not end -/

namespace Shows

variable {Λ : Layout} {s : Flow (Adapter τ)} {S K : NodeId} {mixers : List NodeId}

omit [Processor τ] in
/-- A queue of one node says that only this node waits. -/
lemma only {D : Option NodeId} {n : NodeId} {φ : Phase} (h : g.Shows Λ D s)
    (hfirst : g.ready.first = some n) (hlength : g.ready.length = 1)
    (hφ : (g.nodes.get? n).map (·.phase) = some φ) : s.Only n φ := by
  obtain ⟨L, hL⟩ := h.queue
  obtain ⟨m, rfl⟩ := List.length_eq_one_iff.mp (hL.length.symm.trans hlength)
  obtain rfl : n = m := by simpa [hfirst] using hL.first
  obtain ⟨node, hn, rfl⟩ := Option.map_eq_some_iff.mp hφ
  refine ⟨fun m => ?_, ?_⟩
  · have hm : s.queued m = g.ready.contains m := by
      rw [← h.flow]
      rfl
    rw [hm, Bool.eq_iff_iff, hL.contains_iff, List.mem_singleton,
      decide_eq_true_iff]
  · rw [← h.flow]
    simp [Graph.flow, hn]

omit [Processor τ] in
/-- A graph without data and counted inputs is at rest. -/
lemma steady {D : Option NodeId} (h : g.Shows Λ D s) (hs : d.Sound Λ.network s)
    (hslots : ∀ c ∈ g.slots.values, c.hasData = false)
    (hnodes : ∀ node ∈ g.nodes.values, node.readyIn = 0)
    (hports : ∀ port ∈ g.ports.values, port.counted = false) :
    Network.Steady d Λ.network none none s := by
  refine ⟨hs, fun {m q} _ _ => ?_, fun {m} _ => ?_, fun {m q} _ _ => ?_⟩
  · rw [← h.flow]
    simp only [Graph.flow, reduceCtorEq, decide_false]
    rcases hq : g.inputSlot? q with _ | c
    · rfl
    · simp only [inputSlot?] at hq
      obtain ⟨port, -, hc⟩ := Option.bind_eq_some_iff.mp hq
      split at hc
      · obtain ⟨t, -, hc⟩ := Option.bind_eq_some_iff.mp hc
        exact hslots c (Arena.mem_values hc)
      · cases hc
  · rw [← h.flow]
    rcases hn : g.nodes.get? m with _ | node
    · simp [Graph.flow, hn]
    · simpa [Graph.flow, hn] using hnodes node (Arena.mem_values hn)
  · rw [← h.flow]
    rcases hp : g.ports.get? q with _ | port
    · simp [Graph.flow, hp]
    · simpa [Graph.flow, hp] using hports port (Arena.mem_values hp)

/-- Once the sink of a chain asks for data, no number of turns is enough for a
driver that does not belong to the chain. -/
theorem settle_line (hΛ : Λ.Proper) (h : g.Shows Λ (some D) s)
    (hN : d.Realized Λ.network)
    (hline : Network.Line d Λ.network (some D) S mixers K)
    (hD : D ∉ S :: (mixers ++ [K])) (hs : Network.Steady d Λ.network none none s)
    (hn : s.Only K .checkInput) (budget : Nat) (calls : List Callback) :
    (Graph.settle budget g calls).result = .error .tooManyTurns := by
  obtain ⟨k, hk, _, _, hforced⟩ := hline.exists_forced hN
    (fun m hm he => hD (Option.some.inj he ▸ hm)) hs hn (budget + 1)
  have hrefl : Λ.network.Runs (some D) s 0 ([] : List Callback).reverse s := .refl
  obtain ⟨_, hends, -⟩ := h.settle hΛ hrefl budget
  rw [result_settle budget calls []]
  exact hends.eq_tooManyTurns_of_forced hforced (by omega)

end Shows

/-- The main input, the mixer and the sink of a graph with an optional input are a
chain to which the source of the optional input does not belong. -/
lemma line_optionalAux {a : Assembly Empty}
    (ha : Assembly.build Catalogue.optionalAux = .ok a)
    (hN : Catalogue.optionalAux.Realized a.graph.layout.network) :
    Network.Line Catalogue.optionalAux a.graph.layout.network (some ⟨1⟩) ⟨0⟩ [⟨2⟩]
      ⟨3⟩ := by
  have hmem : Catalogue.optionalAux ∈ Catalogue.all := by simp [Catalogue.all]
  have hports : (Assembly.build (τ := Empty) Catalogue.optionalAux).toOption.any
      (fun a =>
        let N := a.graph.layout.network
        N.outputs ⟨0⟩ = [some ⟨2⟩] ∧ N.outputs ⟨2⟩ = [some ⟨5⟩] ∧
        N.inputs ⟨2⟩ = [⟨2⟩, ⟨3⟩] ∧ N.inputs ⟨3⟩ = [⟨5⟩] ∧
        N.required ⟨2⟩ = 1 ∧ N.required ⟨3⟩ = 1 ∧ N.optional ⟨2⟩ = false ∧
        N.optional ⟨3⟩ = true ∧ N.optional ⟨5⟩ = false ∧
        N.feeder ⟨3⟩ = some ⟨1⟩ ∧ N.async ⟨0⟩ = false ∧ N.async ⟨1⟩ = false)
      = true := by
    decide +kernel
  simp only [ha, Except.toOption, Option.any_some, decide_eq_true_eq] at hports
  generalize a.graph.layout.network = N at hN hports
  obtain ⟨hout₀, hout₂, hin₂, hin₃, hreq₂, hreq₃, hopt₂, hopt₃, hopt₅, hfeed,
    hsync₀, hsync₁⟩ := hports
  have hmix : N.Hands (some ⟨1⟩) ⟨0⟩ ⟨2⟩ ⟨2⟩ := by
    refine ⟨⟨hout₀, by simp [hin₂], hreq₂, fun q hq hne => ?_⟩, hopt₂⟩
    obtain rfl : q = ⟨3⟩ := by simpa [hin₂, hne] using hq
    refine ⟨hopt₃, fun z hz => ?_⟩
    obtain rfl : ⟨1⟩ = z := Option.some.inj (hfeed.symm.trans hz)
    exact ⟨rfl, hsync₁⟩
  have hsink : N.Hands (some ⟨1⟩) ⟨2⟩ ⟨3⟩ ⟨5⟩ := by
    refine ⟨⟨hout₂, by simp [hin₃], hreq₃, fun q hq hne => ?_⟩, hopt₅⟩
    exact absurd (by simpa [hin₃] using hq) hne
  refine ⟨?_, by decide, by decide, by decide, hsync₀, ?_⟩
  · simpa using ⟨⟨_, hmix⟩, _, hsink⟩
  · exact fun hxy => (hN.wellFounded_feeds (Catalogue.acyclic hmem)).asymmetric _ _ hxy

/-- Not every activation that a script may perform ends: behind a source that is
pushed into an optional input, main input and sink ask each other for ever, once
the mixer counted its main input in a pull of its own. -/
theorem push_never_ends :
    ¬ ∀ (d : Description) (a : Assembly Empty) (g : Graph (Adapter Empty))
        (mode : Mode) (D : NodeId), Assembly.build d = .ok a → d.Acyclic →
      a.graph.Activated (fun mode n r => d.Allows mode n.index ∧
        r ≠ .error .tooManyTurns) g →
      d.Allows mode D.index →
      ∃ budget, (g.activate budget mode D).result ≠ .error .tooManyTurns := by
  intro h
  have hmem : Catalogue.optionalAux ∈ Catalogue.all := by simp [Catalogue.all]
  obtain ⟨a, ha, -⟩ := Catalogue.exists_build hmem
  obtain ⟨Λ, s₀, hΛ, h₀, hN, huntouched⟩ := Assembly.shows_of_build ha
  have hline := line_optionalAux ha (by rwa [h₀.layout])
  rw [h₀.layout] at hline
  -- after nine turns of the push only the sink waits
  have hrun : (Assembly.build (τ := Empty) Catalogue.optionalAux).toOption.any
      (fun a =>
        let pulled := a.graph.pull ⟨2⟩
        let pushed := settle 9 (pulled.graph.start .push ⟨1⟩) []
        pulled.result = .ok () ∧ pushed.result = .error .tooManyTurns ∧
        (pulled.graph.nodes.get? ⟨1⟩).isSome = true ∧
        pushed.graph.ready.first = some ⟨3⟩ ∧ pushed.graph.ready.length = 1 ∧
        (pushed.graph.nodes.get? ⟨3⟩).map (·.phase) = some .checkInput ∧
        (∀ c ∈ pushed.graph.slots.values, c.hasData = false) ∧
        (∀ node ∈ pushed.graph.nodes.values, node.readyIn = 0) ∧
        (∀ port ∈ pushed.graph.ports.values, port.counted = false)) = true := by
    decide +kernel
  simp only [ha, Except.toOption, Option.any_some, decide_eq_true_eq] at hrun
  obtain ⟨hpull, hmany, hnode, hfirst, hlength, hphase, hslots, hnodes, hports⟩ :=
    hrun
  obtain ⟨node, hnode⟩ := Option.isSome_iff_exists.mp hnode
  have hg : a.graph.Activated (fun mode n r =>
      Catalogue.optionalAux.Allows mode n.index ∧ r ≠ .error .tooManyTurns)
      (a.graph.pull ⟨2⟩).graph :=
    .activate turnLimit .start ⟨⟨_, rfl, by decide⟩, by
      rw [pull] at hpull
      rw [hpull]
      simp⟩
  obtain ⟨s, hs, hsound⟩ := Activated.shows
    (P := fun s => Catalogue.optionalAux.Sound Λ.network s) hΛ h₀
    (huntouched.sound hN) (fun hP _ hends => hP.ends hN hends) hg
  have hstart := hs.start hΛ (hs.node hnode) .push
  -- so no number of turns is enough
  obtain ⟨budget, hbudget⟩ := h _ a _ .push ⟨1⟩ ha (Catalogue.acyclic hmem) hg
    ⟨_, rfl, by decide⟩
  rw [activate, hnode] at hbudget
  have hmore := settle_eq_of_le (Nat.le_add_left budget 9) hbudget
  have hrefl : Λ.network.Runs (some ⟨1⟩) (s.start .push ⟨1⟩) 0
      ([] : List Callback).reverse (s.start .push ⟨1⟩) := .refl
  obtain ⟨t, hends, ht⟩ := hstart.settle hΛ hrefl 9
  have hsound : Catalogue.optionalAux.Sound Λ.network t :=
    hends.invariant (hsound.congr rfl rfl) fun _ n _ hu => hu.serve hN _ n
  refine hbudget ?_
  change (settle budget _ []).result = _
  rw [← hmore, hstart.settle_add hΛ hmany]
  exact ht.settle_line hΛ hN hline (by decide) (ht.steady hsound hslots hnodes hports)
    (ht.only hfirst hlength hphase) budget _

end Graph

end MediaGraph

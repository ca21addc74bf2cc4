/-
What becomes of the outputs of a node that was called.

* `Graph.Announces`: a turn announces the outputs of a node;
* `Graph.Dismisses`: a turn announces the outputs of a node, and thereby takes
  another node out of the queue that does not count enough inputs;
* `Shows.announces_or_dismisses`: a node that waits announces its outputs in its
  turn, goes on waiting, or is dismissed;
* `Action.announced_or_dismissed`: after a call that went well the outputs of a
  node other than the driver are announced before the activation ends well,
  unless the node is dismissed;
* `Action.not_announced`: they are not always announced, even if the links close
  no cycle.
-/
import Mathlib.Logic.Relation
import MediaGraph.Proofs.Course
import MediaGraph.Proofs.Observation

namespace MediaGraph

variable {σ : Type}

/-! ### What the turn of another node does to the queue -/

namespace Network

variable {N : Network} {D : Option NodeId} {n m : NodeId} {s : Flow σ}

/-- A node that `m` feeds is not in the queue, and does not count as many inputs as
it requires. -/
structure Rejects (N : Network) (m n : NodeId) (s : Flow σ) : Prop where
  feeds : N.Feeds m n
  leaves : s.queued n = false
  incomplete : ¬ (0 < N.required n ∧ s.ready n = N.required n)

/-- Announcing the outputs of `m` leaves a node in the queue, or takes it out of
it because it does not count as many inputs as it requires. -/
lemma queued_checkOut (hN : N.Proper) (h : s.queued n = true) :
    (N.checkOut m s).queued n = true ∨ N.Rejects m n (N.checkOut m s) := by
  refine checkOut_induction (P := fun t => t.queued n = true ∨ N.Rejects m n t) hN
    (Or.inl h) ?_
  intro t c p hp hpc ht
  rw [N.announce_eq hN hpc]
  rcases eq_or_ne n c with rfl | hne
  · rcases hc : N.completes t n p
    · refine Or.inr ⟨⟨p, hpc, (hN.feeder hpc m).mpr hp⟩, ?_, ?_⟩
      · exact Function.update_self ..
      · simpa [completes] using hc
    · exact Or.inl (Function.update_self ..)
  · rcases ht with hwaits | ⟨hfeeds, hleaves, hincomplete⟩
    · left
      simpa only [Function.update_of_ne hne] using hwaits
    · refine Or.inr ⟨hfeeds, ?_, ?_⟩
      · simpa only [Function.update_of_ne hne] using hleaves
      · simpa only [Function.update_of_ne hne] using hincomplete

variable [Processor σ]

/-- A call that goes well leaves every node but a driver in the queue. -/
lemma queued_call (hN : N.Proper) (hD : D ≠ some n) (x : σ) (side : Side)
    (hother : n ≠ m → s.queued n = true)
    (hf : (report D m side (N.call m x side s)).failure = none) :
    (report D m side (N.call m x side s)).flow.queued n = true := by
  rcases eq_or_ne n m with rfl | hne
  · rcases hr : N.call n x side s with ⟨cause | verdict, t⟩
    · rw [hr] at hf
      cases hf
    · exact queued_report_self hD
  · rw [queued_report_of_ne _ hne, (queued_phase_call hN m x side s).1]
    exact hother hne

/-- A node that waits announces its outputs in the turn that does not fail, goes
on waiting, or is taken out of the queue by another node that announces its
outputs. -/
theorem queued_serve (hN : N.Proper) (hn : s.queued n = true) (hD : D ≠ some n)
    {x : σ} (hx : s.processor m = some x)
    (hf : (N.serve D m s).failure = none) :
    (N.serve D m s).flow.queued n = true ∨
    (s.phase m = .checkInput ∨ s.phase m = .checkOutput) ∧
      (m = n ∨ N.Rejects m n (N.serve D m s).flow) := by
  have hother : n ≠ m → (s.dequeue m).countTurn.queued n = true :=
    fun hnm => (Function.update_of_ne hnm ..).trans hn
  unfold serve at hf ⊢
  simp only [hx] at hf ⊢
  unfold serveNode at hf ⊢
  split at hf
  · exact Or.inl (queued_call hN hD x .input hother hf)
  · exact Or.inl (queued_call hN hD x .output hother hf)
  · rename_i hφ
    split at hf
    · cases hf
    · rename_i hd
      rw [if_neg hd]
      rcases eq_or_ne n m with rfl | hnm
      · exact Or.inr ⟨Or.inl hφ, Or.inl rfl⟩
      · have hchecked : (N.checkIn D m (s.dequeue m).countTurn).queued n = true := by
          rw [checkIn_eq]
          simp [hother hnm]
        exact (queued_checkOut hN hchecked).imp_right fun h => ⟨Or.inl hφ, Or.inr h⟩
  · rename_i hφ
    rcases eq_or_ne n m with rfl | hnm
    · exact Or.inr ⟨Or.inr hφ, Or.inl rfl⟩
    · exact (queued_checkOut hN (hother hnm)).imp_right fun h => ⟨Or.inr hφ, Or.inr h⟩

end Network

namespace Graph

/-! ### Announcements and dismissals -/

/-- The graph from which the node at the head of the queue is served. -/
def popped (g : Graph σ) : Graph σ :=
  { g with
    ready := g.ready.popFront.2
    stats := { g.stats with dispatches := g.stats.dispatches + 1 } }

/-- In this turn, which starts from the first graph, the outputs of a node are
announced. -/
inductive Announces (x : Graph σ × Turn σ) (n : NodeId) : Prop
  /-- The node checks its inputs before. -/
  | checkInput : x.1.IsTurnOf n .checkInput →
      x.2.graph = (x.1.popped.checkInput n).checkOutput n → Announces x n
  /-- Nothing else happens in the turn. -/
  | checkOutput : x.1.IsTurnOf n .checkOutput →
      x.2.graph = x.1.popped.checkOutput n → Announces x n

/-- Only the turn of a node announces its outputs. -/
lemma Announces.first_eq {x : Graph σ × Turn σ} {n : NodeId} (h : Announces x n) :
    x.1.ready.first = some n := by
  cases h with
  | checkInput hof => exact hof.1
  | checkOutput hof => exact hof.1

/-- In this turn the outputs of a node that feeds `n` are announced, and `n` is
taken out of the queue, since it does not count as many inputs as it
requires. -/
structure Dismisses (x : Graph σ × Turn σ) (m n : NodeId) : Prop where
  announces : Announces x m
  feeds : x.1.Feeds m n
  waits : x.1.ready.contains n = true
  leaves : x.2.graph.ready.contains n = false
  incomplete : ∃ node, x.2.graph.nodes.get? n = some node ∧
    ¬ (0 < node.requiredIn ∧ node.readyIn = node.requiredIn)

variable [Processor σ] {t : Graph σ} {turn : Turn σ} {Λ : Layout} {s : Flow σ}
  {n d : NodeId}

/-- The turn of a node that is checked announces its outputs, unless it
fails. -/
lemma announces_of_isTurnOf {m : NodeId} (hturn : t.turn? = some turn)
    (hf : turn.failure = none)
    (hφ : t.IsTurnOf m .checkInput ∨ t.IsTurnOf m .checkOutput) :
    Announces (t, turn) m := by
  have hserve : ∀ {φ : Phase}, t.IsTurnOf m φ →
      ∃ node, node.phase = φ ∧ turn = t.popped.serve m node := by
    rintro φ ⟨hfirst, hphase⟩
    obtain ⟨node, hm, hphase⟩ := Option.map_eq_some_iff.mp hphase
    have hpop : t.ready.popFront = (some m, (t.ready.remove m).2) := by
      simp [ReadyQueue.popFront, hfirst]
    simp only [Graph.turn?, hpop, hm, Option.some.injEq] at hturn
    refine ⟨node, hphase, ?_⟩
    rw [popped, hpop, hturn]
  rcases hφ with hof | hof <;> obtain ⟨node, hphase, rfl⟩ := hserve hof
  · refine .checkInput hof ?_
    simp only [serve, hphase] at hf ⊢
    split at hf
    · cases hf
    · rename_i hd
      rw [if_neg hd]
  · refine .checkOutput hof ?_
    simp only [serve, hphase]

/-- In a turn that does not fail a node that waits announces its outputs, is
dismissed, or goes on waiting. -/
lemma Shows.announces_or_dismisses (hΛ : Λ.Proper) (h : t.Shows Λ (some d) s)
    (hn : s.queued n = true) (hnd : n ≠ d) (hturn : t.turn? = some turn)
    (hf : turn.failure = none) :
    (Announces (t, turn) n ∨ ∃ m, Dismisses (t, turn) m n) ∨
      ∃ u, turn.graph.Shows Λ (some d) u ∧ u.queued n = true := by
  obtain ⟨m, hfirst, hqueued, hturned⟩ := h.exists_turn_first hΛ hturn
  obtain ⟨node, hm⟩ := h.exists_node_of_queued hΛ hqueued
  have hof := h.isTurnOf hΛ hfirst hqueued
  have hx : s.processor m = some node.processor := by
    rw [← h.flow]
    simp [Graph.flow, hm]
  rcases Network.queued_serve hΛ.network hn (fun hd => hnd (Option.some.inj hd).symm)
    hx (hturned.failure.symm.trans hf) with hwaits | ⟨hφ, hcase⟩
  · exact Or.inr ⟨_, hturned.graph, hwaits⟩
  · left
    have hannounces : Announces (t, turn) m := by
      refine announces_of_isTurnOf hturn hf (hφ.imp ?_ ?_) <;> intro hφ <;> rwa [hφ] at hof
    rcases hcase with rfl | ⟨hfeeds, hleaves, hincomplete⟩
    · exact Or.inl hannounces
    · obtain ⟨waiting, hwaiting⟩ := h.exists_node_of_queued hΛ hn
      obtain ⟨left, hleft, -⟩ := hturned.graph.exists_node (h.node hwaiting)
      refine Or.inr ⟨m, hannounces, h.feeds_iff.mpr hfeeds, (h.contains_eq n).trans hn,
        (hturned.graph.contains_eq n).trans hleaves, left, hleft, ?_⟩
      rwa [← hturned.graph.required_eq hleft, ← hturned.graph.ready_eq hleft]

/-- A node that waits and is not the driver announces its outputs before the
turns end well, unless it is dismissed. -/
theorem Shows.exists_announces_or_dismisses (hΛ : Λ.Proper) (h : t.Shows Λ (some d) s)
    (hn : s.queued n = true) (hnd : n ≠ d) {budget : Nat}
    (hok : (Graph.settle budget t []).result = .ok ()) :
    ∃ x ∈ course budget t, Announces x n ∨ ∃ m, Dismisses x m n := by
  induction budget generalizing t s with
  | zero =>
      rcases hturn : t.turn? with _ | turn
      · exact absurd ((h.turn?_eq_none.mp hturn n).symm.trans hn) Bool.false_ne_true
      · rw [settle_zero hturn] at hok
        cases hok
  | succ budget ih =>
      rcases hturn : t.turn? with _ | turn
      · exact absurd ((h.turn?_eq_none.mp hturn n).symm.trans hn) Bool.false_ne_true
      · rw [settle_succ hturn] at hok
        rw [course_succ hturn]
        rcases hf : turn.failure with _ | e
        · rw [hf] at hok
          rcases h.announces_or_dismisses hΛ hn hnd hturn hf with
            hdone | ⟨u, hu, hwaits⟩
          · exact ⟨_, List.mem_cons_self, hdone⟩
          · obtain ⟨y, hy, hyn⟩ := ih hu hwaits ((result_settle _ _ _).trans hok)
            exact ⟨y, List.mem_cons_of_mem _ hy, hyn⟩
        · rw [hf] at hok
          cases hok

/-- A node whose call went well waits afterwards, unless it is the driver. -/
lemma Shows.queued_of_callback (hΛ : Λ.Proper) (h : t.Shows Λ (some d) s)
    (hturn : t.turn? = some turn) {side : Side} {verdict : Verdict}
    (hcall : turn.callback = some ⟨n, side, .ok verdict⟩) (hnd : n ≠ d) :
    ∃ u, turn.graph.Shows Λ (some d) u ∧ u.queued n = true := by
  obtain ⟨m, -, hturned⟩ := h.turn? hΛ hturn
  refine ⟨_, hturned.graph, ?_⟩
  rw [hturned.callback] at hcall
  -- the call of either side
  have hreport : ∀ (side' : Side) (r : Except ProcessError Verdict × Flow σ),
      (Network.report (some d) m side' r).callback = some ⟨n, side, .ok verdict⟩ →
      (Network.report (some d) m side' r).flow.queued n = true := by
    rintro side' ⟨cause | verdict', u⟩ hc
    · simp [Network.report] at hc
    · simp only [Network.report, Option.some.injEq, Callback.mk.injEq] at hc
      obtain ⟨rfl, -⟩ := hc
      exact Network.queued_report_self fun hd => hnd (Option.some.inj hd).symm
  unfold Network.serve at hcall ⊢
  split at hcall
  · cases hcall
  · unfold Network.serveNode at hcall ⊢
    split at hcall
    · exact hreport _ _ hcall
    · exact hreport _ _ hcall
    · split at hcall <;> cases hcall
    · cases hcall

end Graph

/-! ### Every graph of a client -/

/-- After a call that went well of a node other than the driver, the outputs of
that node are announced before an activation of any graph that a client can make
ends well, unless a node that feeds it announces its own outputs before and takes
it out of the queue because it does not count as many inputs as it requires. -/
theorem Action.announced_or_dismissed [Processor σ] (actions : List (Action σ))
    (budget : Nat) (mode : Mode) (d : NodeId)
    (hok : ((Action.graph actions).activate budget mode d).result = .ok ())
    {pre post : List (Graph σ × Turn σ)} {t : Graph σ} {turn : Turn σ} {n : NodeId}
    {side : Side} {verdict : Verdict}
    (hturns : (Action.graph actions).turns budget mode d = pre ++ (t, turn) :: post)
    (hcall : turn.callback = some ⟨n, side, .ok verdict⟩) (hnd : n ≠ d) :
    ∃ x ∈ post, Graph.Announces x n ∨ ∃ m, Graph.Dismisses x m n := by
  have htidy := Action.tidy_graph actions
  have htallied := Action.tallied_graph actions
  generalize Action.graph actions = g at hok hturns htidy htallied
  obtain ⟨s, hs, hst⟩ := htallied.exists_start htidy mode d
  have hmem : (t, turn) ∈ g.turns budget mode d := by simp [hturns]
  obtain ⟨ht, hturn⟩ := Graph.takesTurns_of_mem_turns hmem
  obtain ⟨u, hu, -⟩ := ht.shows htidy.layout hs hst
  obtain ⟨v, hv, hqueued⟩ := hu.queued_of_callback htidy.layout hturn hcall hnd
  rcases hd : g.nodes.get? d with _ | node
  · simp [Graph.activate, hd] at hok
  · rw [Graph.turns_of_get? hd] at hturns
    have hsettle : (Graph.settle budget (g.start mode d) []).result = .ok () := by
      simp only [Graph.activate, hd] at hok
      exact hok
    obtain ⟨-, rest, rfl, hrest⟩ := Graph.settle_of_course_append hturns hsettle
    exact hv.exists_announces_or_dismisses htidy.layout hqueued hnd hrest

/-! ### A dismissal -/

/-- No way along links leads from a node back to it. -/
def Graph.Acyclic (g : Graph σ) : Prop := ∀ n, ¬ Relation.TransGen g.Feeds n n

/-- Links that lead from earlier to later nodes close no cycle. -/
lemma Graph.acyclic_of_lt {g : Graph σ}
    (h : ∀ x c, g.Feeds x c → x.index < c.index) : g.Acyclic := by
  intro n hn
  have hlt : Relation.TransGen (· < ·) n.index n.index := hn.lift Handle.index h
  rw [Relation.transGen_eq_self] at hlt
  exact Nat.lt_irrefl _ hlt

namespace Action

/-- Two sources, the second of which has an input from the first, and a sink with
an input from either that asked for data. -/
def detour : List (Action (Adapter Empty)) :=
  [.addNode (.source (.ofBuffers 4)), .addNode (.source (.ofBuffers 4)),
    .addNode (.sink {}), .addPort ⟨0⟩ .output {}, .addPort ⟨0⟩ .output {},
    .addPort ⟨1⟩ .input {}, .addPort ⟨1⟩ .output {}, .addPort ⟨2⟩ .input {},
    .addPort ⟨2⟩ .input {}, .link ⟨0⟩ ⟨4⟩, .link ⟨1⟩ ⟨2⟩, .link ⟨3⟩ ⟨5⟩,
    .writeSlot ⟨4⟩ (Slot.request {}), .writeSlot ⟨5⟩ (Slot.request {})]

lemma acyclic_detour : (graph detour).Acyclic := by
  refine Graph.acyclic_of_lt fun x c hxc => ?_
  exact decide_eq_true_eq.mp (Graph.Feeds.of_all
    (r := fun x c => decide (x.index < c.index)) (by decide +kernel) hxc)

/-- The pull of the sink calls the second source, whose turn never comes again. -/
lemma exists_turns_detour :
    ((graph detour).activate Graph.turnLimit .pull ⟨2⟩).result = .ok () ∧
    ∃ pre t turn post,
      (graph detour).turns Graph.turnLimit .pull ⟨2⟩ = pre ++ (t, turn) :: post ∧
      turn.callback = some ⟨⟨1⟩, .output, .ok .haveOutput⟩ ∧
      ∀ x ∈ post, x.1.ready.first ≠ some ⟨1⟩ := by
  have hok : ((graph detour).activate Graph.turnLimit .pull ⟨2⟩).result = .ok () := by
    decide +kernel
  have hcall : (((graph detour).turns Graph.turnLimit .pull ⟨2⟩)[2]?.bind
      (·.2.callback)).any (fun c => c.node = ⟨1⟩ && c.side = .output &&
        c.result = .ok .haveOutput) = true := by decide +kernel
  have hpost : (((graph detour).turns Graph.turnLimit .pull ⟨2⟩).drop 3).all
      (fun x => x.1.ready.first ≠ some ⟨1⟩) = true := by decide +kernel
  generalize (graph detour).turns Graph.turnLimit .pull ⟨2⟩ = l at hcall hpost
  rcases hc : l[2]?.bind (·.2.callback) with _ | c
  · simp [hc] at hcall
  rw [hc, Option.any_some] at hcall
  obtain ⟨⟨t, turn⟩, hx, hc⟩ := Option.bind_eq_some_iff.mp hc
  obtain ⟨hlt, he⟩ := List.getElem?_eq_some_iff.mp hx
  rcases c with ⟨m, side, r⟩
  simp only [Bool.and_eq_true, decide_eq_true_eq] at hcall
  obtain ⟨⟨rfl, rfl⟩, rfl⟩ := hcall
  refine ⟨hok, l.take 2, t, turn, l.drop 3, ?_, hc, fun x hx => ?_⟩
  · rw [← he, List.getElem_cons_drop, List.take_append_drop]
  · simpa using List.all_eq_true.mp hpost x hx

/-- The second source is dismissed. -/
theorem announced_or_dismissed_detour : ∃ pre t turn post,
    (graph detour).turns Graph.turnLimit .pull ⟨2⟩ = pre ++ (t, turn) :: post ∧
    turn.callback = some ⟨⟨1⟩, .output, .ok .haveOutput⟩ ∧
    ∃ x ∈ post, Graph.Announces x ⟨1⟩ ∨ ∃ m, Graph.Dismisses x m ⟨1⟩ := by
  obtain ⟨hok, pre, t, turn, post, hturns, hcall, -⟩ := exists_turns_detour
  exact ⟨pre, t, turn, post, hturns, hcall, announced_or_dismissed detour
    Graph.turnLimit .pull ⟨2⟩ hok hturns hcall (by decide)⟩

/-- The outputs of a node whose call went well are not always announced before an
activation ends well, even if the links close no cycle. -/
theorem not_announced :
    ¬ ∀ (actions : List (Action (Adapter Empty))) (mode : Mode) (d n : NodeId)
        (side : Side) (pre post : List (Graph (Adapter Empty) × Turn (Adapter Empty)))
        (t : Graph (Adapter Empty)) (turn : Turn (Adapter Empty)),
      (graph actions).Acyclic →
      ((graph actions).activate Graph.turnLimit mode d).result = .ok () →
      (graph actions).turns Graph.turnLimit mode d = pre ++ (t, turn) :: post →
      turn.callback = some ⟨n, side, .ok .haveOutput⟩ → n ≠ d →
      ∃ x ∈ post, Graph.Announces x n := by
  intro h
  obtain ⟨hok, pre, t, turn, post, hturns, hcall, hpost⟩ := exists_turns_detour
  obtain ⟨x, hx, hannounces⟩ := h detour .pull ⟨2⟩ ⟨1⟩ .output pre post t turn
    acyclic_detour hok hturns hcall (by decide)
  exact hpost x hx (hannounces.first_eq)

end Action

end MediaGraph

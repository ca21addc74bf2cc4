/-
Counts and thresholds.

A node is queued for its inputs when its count equals the number of inputs that it
requires, and leaves the queue when the count goes on.

* `Graph.countable`: how many inputs of a node can be counted;
* `Network.Tallied.ready_le`: no node counts more than these;
* `Graph.Overtaken`: what a turn of another node does to a node that waits to
  process its inputs, which leaves the queue exactly if its count rises;
* `Action.threshold_overtaken`: so it is in every activation of every graph that a
  client can make;
* `Action.threshold_exceeded`: a node with an override can count more inputs than
  it requires, and leaves the queue without having been called.
-/
import MediaGraph.Adapter
import MediaGraph.Proofs.Counters
import MediaGraph.Proofs.Requests

namespace MediaGraph

variable {σ : Type}

/-! ### Bounds -/

/-- Only inputs that are linked and required are counted. -/
lemma Network.Tallied.ready_le {N : Network} {s : Flow σ} (h : N.Tallied s) (n : NodeId) :
    s.ready n ≤ (N.inputs n).countP fun p => (N.feeder p).isSome && !N.optional p :=
  Nat.le_trans (h.ready n) <| List.countP_mono_left fun p _ hc => by
    obtain ⟨-, hf, ho⟩ := h.counted hc
    simp [hf, ho]

namespace Graph

/-- The number of inputs of a node that can be counted: they are linked and not
optional. -/
def countable (g : Graph σ) (n : NodeId) : Nat :=
  (g.inputsOf n).countP fun p => (g.feeder? p).isSome && g.isRequired p

namespace Shows

variable {g : Graph σ} {Λ : Layout} {D : Option NodeId} {s : Flow σ} {n : NodeId}
  {node : Node σ}

lemma countable_eq (hΛ : Λ.Proper) (h : g.Shows Λ D s) (n : NodeId) :
    g.countable n = (Λ.network.inputs n).countP fun p =>
      (Λ.network.feeder p).isSome && !Λ.network.optional p := by
  rw [countable, h.inputsOf_eq]
  refine List.countP_congr fun p hp => ?_
  rw [h.feeder?_eq, Graph.isRequired, h.isRequired_eq hΛ hp]

lemma readyIn_le (hΛ : Λ.Proper) (h : g.Shows Λ D s) (hs : Λ.network.Tallied s)
    (hn : g.nodes.get? n = some node) : node.readyIn ≤ g.countable n := by
  rw [← h.ready_eq hn, h.countable_eq hΛ]
  exact hs.ready_le n

end Shows

/-! ### Turns of other nodes -/

/-- In this turn of another node, which starts from the first graph, `node` waits to
process its inputs, and `after` is left of it. Its count, which was what it
requires, does not fall, and it goes on waiting exactly if the count did not
rise. It waits for something else only if it was asked for output. -/
structure Overtaken (x : Graph σ × Turn σ) (n : NodeId) (node after : Node σ) : Prop where
  complete : node.readyIn = node.requiredIn
  required : after.requiredIn = node.requiredIn
  rises : node.readyIn ≤ after.readyIn
  waits_iff : x.2.graph.ready.contains n = true ↔ after.readyIn = node.readyIn
  phase : x.2.graph.ready.contains n = true → after.phase = .input ∨ ∃ m, Asks x m n

/-- A turn of another node overtakes a node that waits to process its inputs. -/
theorem Shows.overtaken [Processor σ] {t : Graph σ} {turn : Turn σ} {Λ : Layout}
    {d n : NodeId} {s : Flow σ} {node after : Node σ} (hΛ : Λ.Proper)
    (h : t.Shows Λ (some d) s) (hs : Λ.network.Tallied s) (hturn : t.turn? = some turn)
    (hn : t.nodes.get? n = some node) (ha : turn.graph.nodes.get? n = some after)
    (hq : t.ready.contains n = true) (hφ : node.phase = .input)
    (hother : t.ready.first ≠ some n) : Overtaken (t, turn) n node after := by
  obtain ⟨m, hfirst, hqueued, hturned⟩ := h.exists_turn_first hΛ hturn
  obtain ⟨x, hx⟩ := h.exists_processor hΛ hqueued
  have hne : n ≠ m := by
    rintro rfl
    exact hother hfirst
  have hq : s.queued n = true := (h.contains_eq n).symm.trans hq
  have hφ : s.phase n = .input := (h.phase_eq hn).trans hφ
  obtain ⟨hpos, hcomplete⟩ := hs.complete hq hφ
  have hheeds := Network.heeds_serve (D := some d) hΛ.network hne hx
  -- the node as the flows before and after the turn show it
  have hready := h.ready_eq hn
  have hready' := hturned.graph.ready_eq ha
  have hqueued' := hturned.graph.contains_eq n
  have hphase' := hturned.graph.phase_eq ha
  have hcomplete' : node.readyIn = node.requiredIn := by
    rw [← hready, hcomplete, h.required_eq hn]
  -- the node goes on waiting if it is asked
  have hasking : (Λ.network.withAsked (some d) m s).queued n = true := by
    simp [Network.withAsked, hq]
  by_cases hheard : ∃ p ∈ Λ.network.inputs n, p ∈ Λ.network.notices m s
  · obtain ⟨hwaits, hinput⟩ := hheeds.heard hheard
    refine ⟨hcomplete', ?_, ?_, ?_, fun hq' => Or.inl ?_⟩
    · rw [← hturned.graph.required_eq ha, h.required_eq hn]
    · rw [← hready, ← hready']
      exact hheeds.ready
    · rw [hqueued', hwaits, hready', h.required_eq hn, ← hcomplete']
      exact and_iff_right (by rwa [hcomplete', ← h.required_eq hn])
    · rw [← hphase']
      exact hinput (hqueued' ▸ hq')
  · push Not at hheard
    have hagree := hheeds.silent hheard
    have hsame : after.readyIn = node.readyIn := by
      rw [← hready', hagree.ready, ← hready]
      rfl
    refine ⟨hcomplete', ?_, Nat.le_of_eq hsame.symm, ?_, fun _ => ?_⟩
    · rw [← hturned.graph.required_eq ha, h.required_eq hn]
    · rw [hqueued', hagree.queued, hasking, hsame]
      simp
    · rw [← hphase', hagree.phase]
      by_cases hasked : Λ.network.asked (some d) m s n = true
      · simp only [Network.asked, Bool.and_eq_true, decide_eq_true_eq] at hasked
        obtain ⟨⟨hcheck, -⟩, hasks⟩ := hasked
        exact Or.inr ⟨m, h.asks hΛ (hcheck ▸ h.isTurnOf hΛ hfirst hqueued) hasks⟩
      · left
        simp [Network.withAsked, hasked, hφ]

end Graph

/-! ### Every graph of a client -/

/-- In every graph that a client can make and between any two turns of an activation
of it no node counts more inputs than it has that are linked and not optional. A
node that waits to process its inputs counts as many as it requires. In the turn of
another node it leaves the queue exactly if a further input is counted, which does
not happen to a node that requires as many inputs as can be counted. -/
theorem Action.threshold_overtaken [Processor σ] (actions : List (Action σ))
    (mode : Mode) (d : NodeId) :
    (∀ n node, (Action.graph actions).nodes.get? n = some node →
      node.readyIn ≤ (Action.graph actions).countable n) ∧
    ∀ t, ((Action.graph actions).start mode d).TakesTurns t →
      (∀ n node, t.nodes.get? n = some node → node.readyIn ≤ t.countable n) ∧
      ∀ turn n node after, t.turn? = some turn → t.nodes.get? n = some node →
        turn.graph.nodes.get? n = some after → t.ready.contains n = true →
        node.phase = .input → t.ready.first ≠ some n →
        Graph.Overtaken (t, turn) n node after ∧
          (t.countable n ≤ node.requiredIn → turn.graph.ready.contains n = true) := by
  have htidy := Action.tidy_graph actions
  have htallied := Action.tallied_graph actions
  generalize Action.graph actions = g at htidy htallied
  refine ⟨fun n node hn =>
    htidy.shows.readyIn_le htidy.layout (htallied.network htidy) hn, fun t ht => ?_⟩
  obtain ⟨s, hs, hst⟩ := htallied.exists_start htidy mode d
  obtain ⟨u, hu, hut⟩ := ht.shows htidy.layout hs hst
  refine ⟨fun n node hn => hu.readyIn_le htidy.layout hut hn,
    fun turn n node after hturn hn ha hq hφ hother => ?_⟩
  have hovertaken := hu.overtaken htidy.layout hut hturn hn ha hq hφ hother
  refine ⟨hovertaken, fun hle => hovertaken.waits_iff.mpr ?_⟩
  -- the count is at its largest
  obtain ⟨m, -, hturned⟩ := hu.turn? htidy.layout hturn
  have hafter := hturned.graph.readyIn_le htidy.layout (hut.serve htidy.layout.network m) ha
  have hcountable : turn.graph.countable n = t.countable n :=
    (hturned.graph.countable_eq htidy.layout n).trans (hu.countable_eq htidy.layout n).symm
  have hcomplete := hovertaken.complete
  have hrises := hovertaken.rises
  omega

namespace Action

/-- Two sources that feed both inputs of a mixer, of which it requires one only, and a
sink behind the mixer, which asks for data. -/
def overridden : List (Action (Adapter Empty)) :=
  [.addNode (.source (.ofBuffers 4)), .addNode (.source (.ofBuffers 4)),
    .addNode (.mixer (.ofBuffers 4)), .addNode (.sink {}),
    .addPort ⟨0⟩ .output {}, .addPort ⟨1⟩ .output {},
    .addPort ⟨2⟩ .input {}, .addPort ⟨2⟩ .input {}, .addPort ⟨2⟩ .output {},
    .addPort ⟨3⟩ .input {},
    .link ⟨0⟩ ⟨2⟩, .link ⟨1⟩ ⟨3⟩, .link ⟨4⟩ ⟨5⟩, .setRequiredIn ⟨2⟩ 1,
    .writeSlot ⟨5⟩ ⟨.needData, none⟩]

/-- When the sink is pulled, the mixer waits to process its inputs, leaves the queue when
the second of them is counted, and is never called for them. After the activation it
counts more inputs than it requires. -/
theorem threshold_exceeded :
    (∀ n k, setRequiredIn n k ∈ overridden → 1 ≤ k) ∧
    ((graph (overridden ++ [activate Graph.turnLimit .pull ⟨3⟩])).nodes.get? ⟨2⟩).any
      (fun node => node.requiredIn < node.readyIn) = true ∧
    (∃ x ∈ (graph overridden).turns Graph.turnLimit .pull ⟨3⟩,
      x.1.ready.contains ⟨2⟩ = true ∧
      (x.1.nodes.get? ⟨2⟩).map (·.phase) = some .input ∧
      x.1.ready.first ≠ some ⟨2⟩ ∧ x.2.graph.ready.contains ⟨2⟩ = false) ∧
    ∀ c ∈ ((graph overridden).pull ⟨3⟩).callbacks, ¬ (c.node = ⟨2⟩ ∧ c.side = .input) := by
  refine ⟨fun n k h => ?_, ?_, ?_, ?_⟩
  · simp only [overridden, List.mem_cons, reduceCtorEq, setRequiredIn.injEq, false_or,
      List.not_mem_nil, or_false] at h
    exact Nat.le_of_eq h.2.symm
  all_goals decide +kernel

end Action

end MediaGraph

/-
Activations as runs of a network.

* `Shows.activate`: an activation of a graph is a run of its network that ends
  when nobody waits, with a failed turn, or when the turns are used up; nobody
  waits afterwards;
* `Graph.activate_eq_of_le`: more turns than an activation takes change
  nothing about it;
* `Shows.exists_infinite`: an activation that no number of turns completes is
  an infinite run of the network.
-/
import Mathlib.Logic.Function.Iterate
import MediaGraph.Proofs.Network.Simulation

namespace MediaGraph.Graph

variable {σ : Type} [Processor σ] {g : Graph σ} {Λ : Layout}
  {D : Option NodeId} {s : Flow σ} {n : NodeId} {calls : List Callback}

/-! ### Allowed turns -/

lemma settle_of_none (h : g.turn? = none) (budget : Nat) :
    settle budget g calls = ⟨g, .ok (), calls⟩ := by
  rw [settle.eq_def]
  simp only [h]

lemma settle_zero {turn : Turn σ} (h : g.turn? = some turn) :
    settle 0 g calls = ⟨g, .error .tooManyTurns, calls⟩ := by
  rw [settle, h]

lemma settle_succ {turn : Turn σ} (h : g.turn? = some turn) (budget : Nat) :
    settle (budget + 1) g calls =
      match turn.failure with
      | some e => ⟨turn.graph, .error e, turn.callback.toList ++ calls⟩
      | none => settle budget turn.graph (turn.callback.toList ++ calls) := by
  rw [settle.eq_def]
  rcases hf : turn.failure with _ | e <;> simp only [h, hf]

/-- How turns end does not depend on the calls that were collected before. -/
lemma result_settle (budget : Nat) (calls calls' : List Callback) :
    (settle budget g calls).result = (settle budget g calls').result := by
  induction budget generalizing g calls calls' with
  | zero =>
      rcases hturn : g.turn? with _ | turn
      · rw [settle_of_none hturn, settle_of_none hturn]
      · rw [settle_zero hturn, settle_zero hturn]
  | succ budget ih =>
      rcases hturn : g.turn? with _ | turn
      · rw [settle_of_none hturn, settle_of_none hturn]
      · rw [settle_succ hturn, settle_succ hturn]
        split
        · rfl
        · exact ih _ _

/-- More turns than are taken change nothing. -/
lemma settle_eq_of_le {b b' : Nat} (hb : b ≤ b')
    (h : (settle b g calls).result ≠ .error .tooManyTurns) :
    settle b' g calls = settle b g calls := by
  induction b generalizing b' g calls with
  | zero =>
      rcases hturn : g.turn? with _ | turn
      · rw [settle_of_none hturn, settle_of_none hturn]
      · exact absurd (by rw [settle_zero hturn]) h
  | succ b ih =>
      obtain ⟨b', rfl⟩ : ∃ k, b' = k + 1 := ⟨b' - 1, by omega⟩
      rcases hturn : g.turn? with _ | turn
      · rw [settle_of_none hturn, settle_of_none hturn]
      · rw [settle_succ hturn] at h
        rw [settle_succ hturn, settle_succ hturn]
        split
        · rfl
        · rename_i hf
          rw [hf] at h
          exact ih (by omega) h

/-- More turns than an activation takes change nothing about it. -/
theorem activate_eq_of_le {mode : Mode} {b b' : Nat} (hb : b ≤ b')
    (h : (g.activate b mode n).result ≠ .error .tooManyTurns) :
    g.activate b' mode n = g.activate b mode n := by
  unfold activate at h ⊢
  split
  · rfl
  · rename_i node hn
    rw [hn] at h
    rw [settle_eq_of_le hb h]

namespace Shows

/-! ### Runs -/

/-- The turns of a graph are a run of its network. -/
lemma settle (hΛ : Λ.Proper) {s₀ : Flow σ} {k : Nat}
    (hr : Λ.network.Runs D s₀ k calls.reverse s) (h : g.Shows Λ D s)
    (budget : Nat) :
    ∃ t, Λ.network.Ends D s₀ (k + budget) (Graph.settle budget g calls).result
        (Graph.settle budget g calls).callbacks.reverse t ∧
      (Graph.settle budget g calls).graph.Shows Λ D t := by
  induction budget generalizing k g s calls with
  | zero =>
      rcases hturn : g.turn? with _ | turn
      · rw [settle_of_none hturn]
        exact ⟨s, .settled hr (by omega) (h.turn?_eq_none.mp hturn), h⟩
      · obtain ⟨n, hn, -⟩ := h.turn? hΛ hturn
        rw [settle_zero hturn]
        exact ⟨s, .exhausted hr hn, h⟩
  | succ budget ih =>
      rcases hturn : g.turn? with _ | turn
      · rw [settle_of_none hturn]
        exact ⟨s, .settled hr (by omega) (h.turn?_eq_none.mp hturn), h⟩
      · obtain ⟨n, hn, ht⟩ := h.turn? hΛ hturn
        rw [settle_succ hturn, ht.failure, ht.callback]
        have hg := ht.graph
        rcases hserved : Λ.network.serve D n s with ⟨u, call, failure⟩
        rw [hserved] at hg
        have hcalls : (call.toList ++ calls).reverse =
            calls.reverse ++ call.toList := by
          cases call <;> simp
        cases failure with
        | some e =>
            refine ⟨u, ?_, hg⟩
            simp only [hcalls]
            exact .failed hr (by omega) hn hserved
        | none =>
            have hr' := Network.Runs.turn hr hn hserved
            rw [← hcalls] at hr'
            obtain ⟨t, hends, ht⟩ := ih hr' hg
            exact ⟨t, by rwa [show k + (budget + 1) = k + 1 + budget by omega],
              ht⟩

/-- Turns can be allowed in two portions. -/
lemma settle_add (hΛ : Λ.Proper) (h : g.Shows Λ D s) {k : Nat}
    (hk : (Graph.settle k g calls).result = .error .tooManyTurns) (budget : Nat) :
    Graph.settle (k + budget) g calls =
      Graph.settle budget (Graph.settle k g calls).graph
        (Graph.settle k g calls).callbacks := by
  induction k generalizing g s calls with
  | zero =>
      rcases hturn : g.turn? with _ | turn
      · simp [settle_of_none hturn] at hk
      · rw [settle_zero hturn, Nat.zero_add]
  | succ k ih =>
      rcases hturn : g.turn? with _ | turn
      · simp [settle_of_none hturn] at hk
      · obtain ⟨n, -, ht⟩ := h.turn? hΛ hturn
        have hnot := Λ.network.failure_serve_ne_tooManyTurns D n s
        rw [← ht.failure] at hnot
        rw [settle_succ hturn] at hk
        rw [Nat.add_right_comm, settle_succ hturn, settle_succ hturn]
        rcases hf : turn.failure with _ | e
        · rw [hf] at hk
          exact ih ht.graph hk
        · rw [hf] at hk hnot
          exact absurd (congrArg some (Except.error.inj hk)) hnot

omit [Processor σ] in
/-- A live node becomes the driver. -/
lemma start (hΛ : Λ.Proper) (h : g.Shows Λ D s) {ν : NodeLayout}
    (hν : Λ.node n = some ν) (mode : Mode) :
    (g.start mode n).Shows Λ (some n) (s.start mode n) := by
  have hp := h.setPhase hν mode.phase
  refine Shows.enqueue (s := { s.setPhase n mode.phase with stats := {} }) hΛ
    ⟨hp.layout, rfl, ?_, hp.queue⟩ hν
  rw [← hp.flow]
  rfl

/-- An activation of a live node is a run of the network, and nobody waits
afterwards. -/
theorem activate (hΛ : Λ.Proper) (h : g.Shows Λ D s) {ν : NodeLayout}
    (hν : Λ.node n = some ν) (budget : Nat) (mode : Mode) :
    ∃ t, Λ.network.Ends (some n) (s.start mode n) budget
        (g.activate budget mode n).result (g.activate budget mode n).callbacks
        t ∧
      (g.activate budget mode n).graph.Shows Λ none t.clear := by
  obtain ⟨node, hn, -⟩ := h.exists_node hν
  have hrefl : Λ.network.Runs (some n) (s.start mode n) 0
      ([] : List Callback).reverse (s.start mode n) := .refl
  obtain ⟨t, hends, ht⟩ := (h.start hΛ hν mode).settle hΛ hrefl budget
  rw [Nat.zero_add] at hends
  simp only [Graph.activate, hn]
  generalize Graph.settle budget (g.start mode n) [] = a at hends ht
  refine ⟨t, hends, ?_⟩
  obtain ⟨L, hL⟩ := ht.queue
  -- nobody is left in the queue, and the live nodes keep their places
  obtain ⟨hempty, hplace⟩ : (finish a).graph.ready.Lists [] ∧
      ∀ m, ((finish a).graph.ready.links.get? m).isSome =
        (a.graph.ready.links.get? m).isSome := by
    rcases hr : a.result with e | u
    · simpa [finish, hr] using hL.clear
    · rw [hr] at hends
      cases hends with
      | settled _ _ hnone =>
          obtain rfl : L = [] := by
            refine List.eq_nil_iff_forall_not_mem.mpr fun m hm => ?_
            have hc : t.queued m = true := by
              rw [← ht.flow]
              exact hL.contains_iff.mpr hm
            simp [hnone m] at hc
          simpa [finish, hr] using hL
  refine ⟨?_, rfl, ?_, [], hempty⟩
  · rw [← ht.layout]
    ext1 <;> try rfl
    exact funext hplace
  · rw [← ht.flow]
    ext1 <;> try rfl
    funext m
    have hm : ¬ (finish a).graph.ready.contains m = true := by
      simp [hempty.contains_iff]
    simpa [Flow.clear, Graph.flow] using hm

/-! ### Infinite runs -/

omit [Processor σ] in
/-- Every member of a sequence has a successor. -/
private lemma exists_seq_of_forall {α : Type*} {P : α → Prop} {r : α → α → Prop}
    {a : α} (ha : P a) (h : ∀ a, P a → ∃ b, P b ∧ r a b) :
    ∃ f : ℕ → α, f 0 = a ∧ ∀ i, r (f i) (f (i + 1)) := by
  choose! next hnext using h
  refine ⟨fun i => next^[i] a, rfl, fun i => ?_⟩
  have hP : ∀ i, P (next^[i] a) := fun i => by
    induction i with
    | zero => exact ha
    | succ i ih =>
        rw [Function.iterate_succ_apply']
        exact (hnext _ ih).1
  simpa only [Function.iterate_succ_apply'] using (hnext _ (hP i)).2

/-- An activation that no number of turns completes is an infinite run. -/
theorem exists_infinite (hΛ : Λ.Proper) (h : g.Shows Λ D s)
    (hinf : ∀ budget, (Graph.settle budget g []).result = .error .tooManyTurns) :
    ∃ t : ℕ → Flow σ, t 0 = s ∧ ∀ i, ∃ n call, (t i).queued n = true ∧
      Λ.network.serve D n (t i) = ⟨t (i + 1), call, none⟩ := by
  refine exists_seq_of_forall
    (P := fun s => ∃ g : Graph σ, g.Shows Λ D s ∧ ∀ budget, ∃ calls,
      (Graph.settle budget g calls).result = .error .tooManyTurns)
    (r := fun s t => ∃ n call, s.queued n = true ∧
      Λ.network.serve D n s = ⟨t, call, none⟩)
    ⟨g, h, fun budget => ⟨[], hinf budget⟩⟩ ?_
  rintro s ⟨g, h, hinf⟩
  rcases hturn : g.turn? with _ | turn
  · obtain ⟨calls, hc⟩ := hinf 0
    simp [settle_of_none hturn] at hc
  · obtain ⟨n, hn, ht⟩ := h.turn? hΛ hturn
    have hnot := Λ.network.failure_serve_ne_tooManyTurns D n s
    rcases hserved : Λ.network.serve D n s with ⟨u, call, failure⟩
    rw [hserved] at ht hnot
    have hsucc : ∀ budget, ∃ calls, (match turn.failure with
        | some e => (⟨turn.graph, .error e, turn.callback.toList ++ calls⟩ :
            Activation σ)
        | none => Graph.settle budget turn.graph
            (turn.callback.toList ++ calls)).result = .error .tooManyTurns := by
      intro budget
      obtain ⟨calls, hc⟩ := hinf (budget + 1)
      exact ⟨calls, by rwa [settle_succ hturn] at hc⟩
    cases failure with
    | some e =>
        obtain ⟨calls, hc⟩ := hsucc 0
        rw [ht.failure] at hc
        exact absurd (congrArg some (Except.error.inj hc)) hnot
    | none =>
        rw [ht.failure] at hsucc
        exact ⟨u, ⟨turn.graph, ht.graph, fun budget =>
          (hsucc budget).imp' _ fun _ hc => hc⟩, n, call, hn, hserved⟩

end Shows

end MediaGraph.Graph

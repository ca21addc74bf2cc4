/-
Graphs after a sequence of activations.

* `Graph.Activated`: a graph that a sequence of activations leaves behind,
  each of which is allowed for its mode, its driver and the way it ended;
* `Network.Ends.invariant`: what every turn preserves holds when a run ends;
* `Activated.shows`: what every activation preserves holds of the flow of the
  graph after any sequence of them.
-/
import MediaGraph.Proofs.Network.Activation

namespace MediaGraph

variable {σ : Type} [Processor σ]

/-- What is left of a graph after a sequence of activations, each of which is
allowed for its mode, its driver and the way it ended. -/
inductive Graph.Activated
    (allowed : Mode → NodeId → Except ActivationError Unit → Prop)
    (g₀ : Graph σ) : Graph σ → Prop
  | start : Activated allowed g₀ g₀
  | activate {g : Graph σ} {mode : Mode} {n : NodeId} (budget : Nat) :
      Activated allowed g₀ g →
      allowed mode n (g.activate budget mode n).result →
      Activated allowed g₀ (g.activate budget mode n).graph

namespace Network

variable {N : Network} {D : Option NodeId} {s t : Flow σ} {P : Flow σ → Prop}

/-- What every turn preserves holds after a run. -/
lemma Runs.invariant {k : Nat} {calls : List Callback}
    (h : N.Runs D s k calls t) (hs : P s)
    (hstep : ∀ t n, t.queued n = true → P t → P (N.serve D n t).flow) : P t := by
  induction h with
  | refl => exact hs
  | turn _ hn hserve ih =>
      have := hstep _ _ hn ih
      rwa [hserve] at this

/-- What every turn preserves holds when a run ends. -/
lemma Ends.invariant {budget : Nat} {r : Except ActivationError Unit}
    {calls : List Callback} (h : N.Ends D s budget r calls t) (hs : P s)
    (hstep : ∀ t n, t.queued n = true → P t → P (N.serve D n t).flow) : P t := by
  cases h with
  | settled hr => exact hr.invariant hs hstep
  | failed hr _ hn hserve =>
      have := hstep _ _ hn (hr.invariant hs hstep)
      rwa [hserve] at this
  | exhausted hr => exact hr.invariant hs hstep

end Network

namespace Graph.Activated

variable {g₀ g : Graph σ} {Λ : Layout} {s₀ : Flow σ} {P : Flow σ → Prop}
  {allowed : Mode → NodeId → Except ActivationError Unit → Prop}

/-- What every activation preserves holds of the flow after any sequence of
them. -/
theorem shows (hΛ : Λ.Proper) (h₀ : g₀.Shows Λ none s₀) (hP : P s₀)
    (hstep : ∀ {s t mode n budget r calls}, P s → allowed mode n r →
      Λ.network.Ends (some n) (s.start mode n) budget r calls t → P t.clear)
    (h : g₀.Activated allowed g) : ∃ s, g.Shows Λ none s ∧ P s := by
  induction h with
  | start => exact ⟨s₀, h₀, hP⟩
  | @activate g mode n budget _ hallowed ih =>
      obtain ⟨s, hs, hPs⟩ := ih
      rcases hn : g.nodes.get? n with _ | node
      · simp only [Graph.activate, hn]
        exact ⟨s, hs, hPs⟩
      · obtain ⟨t, hends, ht⟩ := hs.activate hΛ (hs.node hn) budget mode
        exact ⟨_, ht, hstep hPs hallowed hends⟩

end Graph.Activated

end MediaGraph

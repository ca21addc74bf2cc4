/-
Sinks below the driver.

* `Endless.exists_sink`: in a run that does not end, the input of a sink below
  the driver flows;
* `Endless.isSink_driver`: the driver itself is not a sink;
* `Network.Supplied`: a node gets data without the driver;
* `Endless.supplied`: if the driver is not asynchronous, all that flows is
  supplied without it;
* `Endless.exists_supplied`: so is some sink below it.
-/
import MediaGraph.Proofs.Endless.Links

namespace MediaGraph.Network

open Filter

variable {τ : Type} {d : Description} {N : Network} {D : NodeId}
  {t : ℕ → Flow (Adapter τ)} {turn : ℕ → NodeId} {n c x K : NodeId}
  {p q : PortId}

/-- A node gets data without the driver `D`: it is another source, or all its
required linked inputs and at least one of its inputs get data without `D`. -/
inductive Supplied (N : Network) (D : NodeId) : NodeId → Prop
  | source {n : NodeId} : n ≠ D → N.inputs n = [] → Supplied N D n
  | node {n x : NodeId} {p : PortId} :
      n ≠ D → p ∈ N.inputs n → N.feeder p = some x → Supplied N D x →
      (∀ q ∈ N.inputs n, N.optional q = false → ∀ y, N.feeder q = some y →
        Supplied N D y) →
      Supplied N D n

namespace Endless

/-- A sink feeds no node. -/
lemma not_feeds_of_isSink (h : N.Endless d D t turn) (hK : d.isSink K = true) :
    ¬ N.Feeds K n := by
  rintro ⟨p, hp, hf⟩
  obtain ⟨spec, hspec, hk⟩ := Description.isSink_iff.mp hK
  obtain ⟨spec', hspec', hk'⟩ :=
    h.realized.exists_spec_of_target ((h.realized.proper.feeder hp K).mp hf)
  rw [hspec] at hspec'
  cases hspec'
  exact hk' hk

/-- A sink has one input. -/
lemma eq_of_mem_inputs (h : N.Endless d D t turn) (hK : d.isSink K = true)
    (hp : p ∈ N.inputs K) (hq : q ∈ N.inputs K) : q = p := by
  obtain ⟨spec, hspec, hk⟩ := Description.isSink_iff.mp hK
  have hlen := h.realized.inputs hspec
  rw [NodeSpec.inputCount, hk] at hlen
  obtain ⟨r, hr⟩ := List.length_eq_one_iff.mp hlen
  rw [hr, List.mem_singleton] at hp hq
  rw [hp, hq]

/-- In a run that does not end, the input of a sink below the driver flows. -/
theorem exists_sink (h : N.Endless d D t turn) :
    ∃ K p, d.isSink K = true ∧ Relation.ReflTransGen N.Feeds D K ∧
      p ∈ N.inputs K ∧ Flows t p := by
  obtain ⟨c, p, hp, hflows⟩ := h.exists_flows
  obtain ⟨K, p, hK, hp, hflows⟩ :
      ∃ K p, d.isSink K = true ∧ p ∈ N.inputs K ∧ Flows t p := by
    induction c using (h.realized.wellFounded_swap h.acyclic).induction
      generalizing p with
    | _ c ih =>
    rcases h.flows_down hp hflows with ⟨q, hq, hqflows⟩ | hsink
    · obtain ⟨m, hm⟩ := h.realized.proper.target hq
      exact ih m ⟨q, hm, (h.realized.proper.feeder hm c).mpr hq⟩ q hm hqflows
    · exact ⟨c, p, hsink, hp, hflows⟩
  refine ⟨K, p, hK, ?_, hp, hflows⟩
  obtain ⟨i, hi⟩ := (h.frequently_turn hp hflows).exists
  obtain ⟨r, hDr, hKr⟩ := h.joined i K (by rw [← hi]; exact h.queued i)
  obtain rfl | ⟨m, hm, -⟩ := hKr.cases_head
  · exact hDr
  · exact absurd hm (h.not_feeds_of_isSink hK)

/-- The driver checks its inputs again and again only if it is asked again and
again. -/
lemma frequently_asks_driver (h : N.Endless d D t turn)
    (hcheck : ∃ᶠ i in atTop, At t turn D .checkInput i) :
    ∃ᶠ i in atTop, Asks N D t turn D i := by
  refine h.frequently_asks ?_
  rw [frequently_atTop] at hcheck ⊢
  intro a
  obtain ⟨i, hai, hi⟩ := hcheck a
  obtain ⟨j, hij, hj⟩ := hcheck (i + 1)
  by_contra! hno
  have hleft : ¬ (t (i + 1)).queued D = true := by
    intro hqueued
    have := h.turns i
    rw [hi.1] at this
    simpa [hi.2] using (this.queued_self h.realized.proper hqueued).1
  exact h.phase_ne_of_no_call (Or.inl rfl) hij (fun hq => absurd hq hleft)
    (fun k hk _ hn => ⟨fun hφ => hno k (by omega) ⟨hn, hφ⟩, fun _ => rfl⟩)
    (by rw [← hj.1]; exact h.queued j) hj.2

/-- The input of a driver that is a sink does not flow. -/
lemma driver_ne_sink (h : N.Endless d D t turn) (hK : d.isSink K = true)
    (hp : p ∈ N.inputs K) (hflows : Flows t p) : D ≠ K := by
  rintro rfl
  obtain ⟨x, hx⟩ := h.exists_feeder hp hflows
  obtain ⟨i, -, -, q, hq, hf, -⟩ :=
    (h.frequently_asks_driver (h.frequently_check hp hx hflows).2).exists
  exact h.not_feeds_of_isSink hK ⟨q, hq, hf⟩

/-- A run that does not end is not driven by a sink. -/
lemma isSink_driver (h : N.Endless d D t turn) : d.isSink D = false := by
  by_contra hD
  obtain ⟨K, p, hK, hDK, hp, hflows⟩ := h.exists_sink
  obtain rfl | ⟨m, hm, -⟩ := hDK.cases_head
  · exact h.driver_ne_sink hK hp hflows rfl
  · exact h.not_feeds_of_isSink (by simpa using hD) hm

/-- If the driver is not asynchronous, all that flows is supplied without it. -/
lemma supplied (h : N.Endless d D t turn) (hsync : N.async D = false)
    (hp : p ∈ N.inputs c) (hf : N.feeder p = some x) (hflows : Flows t p) :
    N.Supplied D x := by
  induction x using (h.realized.wellFounded_feeds h.acyclic).induction
    generalizing c p with
  | _ x ih =>
  have hne : x ≠ D := by
    rintro rfl
    simpa [hsync] using (h.frequently_check hp hf hflows).1
  by_cases hin : N.inputs x = []
  · exact .source hne hin
  · obtain ⟨q, hq, hqflows⟩ := h.exists_flows_up hp hf hflows hin
    obtain ⟨y, hy⟩ := h.exists_feeder hq hqflows
    refine .node hne hq hy (ih y ⟨q, hq, hy⟩ hq hy hqflows) fun r hr ho z hz => ?_
    exact ih z ⟨r, hr, hz⟩ hr hz (h.flows_up hp hf hflows hr (by simp [hz]) ho)

/-- If the driver is not asynchronous, some sink below it is supplied without
it. -/
theorem exists_supplied (h : N.Endless d D t turn) (hsync : N.async D = false) :
    ∃ K, d.isSink K = true ∧ Relation.ReflTransGen N.Feeds D K ∧
      N.Supplied D K := by
  obtain ⟨K, p, hK, hDK, hp, hflows⟩ := h.exists_sink
  obtain ⟨x, hx⟩ := h.exists_feeder hp hflows
  have hsupplied := h.supplied hsync hp hx hflows
  refine ⟨K, hK, hDK, .node (h.driver_ne_sink hK hp hflows).symm hp hx hsupplied
    fun q hq _ y hy => ?_⟩
  obtain rfl := h.eq_of_mem_inputs hK hp hq
  obtain rfl : x = y := Option.some.inj (hx.symm.trans hy)
  exact hsupplied

end Endless

end MediaGraph.Network

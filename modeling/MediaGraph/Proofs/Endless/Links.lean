/-
Links that are filled again and again.

* `Endless.flows_of_busy`: a node that takes turns again and again without being
  asked again and again has an input that flows;
* `Endless.exists_flows`: in a run that does not end some link flows;
* `Endless.eventually_asked_first`: in the end, a node that made output and whose
  output flows is asked for output before it processes its inputs again;
* `Endless.frequently_output`, `Endless.frequently_check`: so it is asked again
  and again, by a node that finds the link empty.
-/
import MediaGraph.Proofs.Endless.Runs

namespace MediaGraph.Network.Endless

open Filter

variable {τ : Type} {d : Description} {N : Network} {D : NodeId}
  {t : ℕ → Flow (Adapter τ)} {turn : ℕ → NodeId} {n c x : NodeId} {p q : PortId}
  {i j : ℕ}

/-! ### Some link flows -/

/-- A node that takes turns again and again is called again and again. -/
lemma frequently_call (h : N.Endless d D t turn)
    (hbusy : ∃ᶠ i in atTop, turn i = n)
    (hout : ¬ ∃ᶠ i in atTop, At t turn n .output i) :
    ∃ᶠ i in atTop, At t turn n .input i := by
  by_contra hin
  rw [not_frequently, eventually_atTop] at hout hin
  obtain ⟨a, ha⟩ := hout
  obtain ⟨b, hb⟩ := hin
  obtain ⟨i, hi, hni⟩ := (frequently_atTop.mp hbusy) (max a b)
  obtain ⟨j, hj, hnj⟩ := (frequently_atTop.mp hbusy) (i + 1)
  have hno : ∀ k, i ≤ k → turn k = n →
      (t k).phase n ≠ .output ∧ (t k).phase n ≠ .input :=
    fun k hk hn => ⟨fun hφ => ha k (by omega) ⟨hn, hφ⟩,
      fun hφ => hb k (by omega) ⟨hn, hφ⟩⟩
  -- it does not wait after the first of two turns, and then not for these phases
  have hleft : ¬ (t (i + 1)).queued n = true := by
    intro hqueued
    have := h.turns i
    rw [hni] at this
    rcases (this.queued_self h.realized.proper hqueued).1 with ⟨hφ, -⟩ | hφ
    · exact (hno i le_rfl hni).2 hφ
    · exact (hno i le_rfl hni).1 hφ
  have hphase : ∀ φ, φ = .checkInput ∨ φ = .checkOutput → (t j).phase n ≠ φ := by
    intro φ hφ
    refine h.phase_ne_of_no_call hφ hj (fun hq => absurd hq hleft)
      (fun k hk _ hn => ?_) (by rw [← hnj]; exact h.queued j)
    exact ⟨(hno k (by omega) hn).1, fun hφ => absurd hφ (hno k (by omega) hn).2⟩
  obtain ⟨h₁, h₂⟩ := hno j (by omega) hnj
  cases hφ : (t j).phase n with
  | input => exact h₂ hφ
  | output => exact h₁ hφ
  | checkInput => exact hphase _ (Or.inl rfl) hφ
  | checkOutput => exact hphase _ (Or.inr rfl) hφ

/-- Between two turns in which a node processes its inputs, one of them is
announced to it. -/
lemma announced_between (h : N.Endless d D t turn) (hij : i < j)
    (hi : ∀ q ∈ N.inputs n, (t i).counted q = false) (hj : At t turn n .input j)
    (hcheck : ∀ k q, i ≤ k → k < j → At t turn n .checkInput k →
      q ∈ N.inputs n → (N.feeder q).isSome = true → ((t k).slot q).status ≠ .ok) :
    ∃ q ∈ N.inputs n, (N.feeder q).isSome = true ∧ N.optional q = false ∧
      ∃ k, i ≤ k ∧ k < j ∧ N.feeder q = some (turn k) ∧
        (t k).full q = true := by
  obtain ⟨hpos, hready⟩ := (h.counting j).complete
    (by rw [← hj.1]; exact h.queued j) hj.2
  rw [← hready, (h.counting j).ready n, List.countP_pos_iff] at hpos
  obtain ⟨q, hq, hqj⟩ := hpos
  obtain ⟨hlinked, hrequired⟩ := (h.counting j).required hq hqj
  refine ⟨q, hq, hlinked, hrequired, ?_⟩
  obtain ⟨k, hik, hkj, hk, hk'⟩ := exists_change
    (P := fun k => (t k).counted q = true) hij.le (by simp [hi q hq]) hqj
  rcases (h.turns k).counted h.realized.proper hq hk' (by simpa using hk) with
    ⟨hn, hφ, hok, -⟩ | ⟨hf, hfull, -⟩
  · exact absurd hok (hcheck k q hik hkj ⟨hn.symm, hn ▸ hφ⟩ hq hlinked)
  · exact ⟨k, hik, hkj, hf, hfull⟩

/-- A node that takes turns again and again without being asked again and again
has an input that flows. -/
lemma flows_of_busy (h : N.Endless d D t turn)
    (hbusy : ∃ᶠ i in atTop, turn i = n)
    (hout : ¬ ∃ᶠ i in atTop, At t turn n .output i) :
    ∃ q ∈ N.inputs n, Flows t q := by
  induction n using (h.realized.wellFounded_feeds h.acyclic).induction with
  | _ n ih =>
  have hin := h.frequently_call hbusy hout
  -- one of the inputs is announced again and again
  have hsome : ∃ᶠ k in atTop, ∃ q ∈ N.inputs n,
      N.feeder q = some (turn k) ∧ (t k).full q = true := by
    rw [frequently_atTop] at hin ⊢
    intro a
    obtain ⟨i, hai, hi⟩ := hin (a + 1)
    obtain ⟨j, hij, hj⟩ := hin (i + 1)
    have hstart : ∀ q ∈ N.inputs n, (t (i + 1)).counted q = false := by
      have := h.turns i
      rw [hi.1] at this
      exact fun q hq => this.counted_of_input hi.2 hq
    have hj' : i + 1 < j := by
      refine lt_of_le_of_ne hij fun he => ?_
      have hq := h.queued j
      rw [hj.1, ← he] at hq
      have := h.turns i
      rw [hi.1] at this
      rcases (this.queued_self h.realized.proper hq).2 with hφ | hφ <;>
        simp [he, hj.2] at hφ
    obtain ⟨q, hq, -, -, k, hik, -, hf, hfull⟩ :=
      h.announced_between hj' hstart hj fun k q hik _ hk hq hlinked => by
        obtain ⟨k, rfl⟩ : ∃ l, k = l + 1 := ⟨k - 1, by omega⟩
        exact h.asked k n (by rw [← hk.1]; exact h.queued _) hk.2 q hq hlinked
    exact ⟨k, by omega, q, hq, hf, hfull⟩
  obtain ⟨q, hq, hfreq⟩ :=
    (frequently_exists_finite (N.inputs n).finite_toSet).mp hsome
  refine ⟨q, hq, ?_⟩
  by_contra hno
  -- the link stays full, so that the node that feeds it is not asked any more
  have hfull := eventually_full hno (hfreq.mono fun k hk => hk.2)
  obtain ⟨k, hf, -⟩ := hfreq.exists
  have hfeeds : N.Feeds (turn k) n := ⟨q, hq, hf⟩
  obtain ⟨q', hq', hflows⟩ := ih (turn k) hfeeds
    (hfreq.mono fun l hl => Option.some.inj (hl.1.symm.trans hf))
    (fun hasked => by
      obtain ⟨l, ⟨-, -, p, hp, hfp, hempty⟩, hfull⟩ :=
        ((h.frequently_asks hasked).and_eventually hfull).exists
      rw [h.realized.input_unique hp hfp hq hf, hfull] at hempty
      cases hempty)
  have hq := (h.realized.proper.feeder hq _).mp hf
  rcases h.flows_down hq' hflows with ⟨p, hp, hpflows⟩ | hsink
  · exact hno (h.realized.target_unique hp hq ▸ hpflows)
  · obtain ⟨spec, hspec, hk⟩ := Description.isSink_iff.mp hsink
    obtain ⟨spec', hspec', hk'⟩ := h.realized.exists_spec_of_target hq
    rw [hspec] at hspec'
    cases hspec'
    exact hk' hk

/-- In a run that does not end some link flows. -/
lemma exists_flows (h : N.Endless d D t turn) :
    ∃ c, ∃ p ∈ N.inputs c, Flows t p := by
  have hsome : ∃ᶠ i in atTop,
      ∃ n ∈ {n : NodeId | n.index < d.nodes.length}, turn i = n :=
    Eventually.frequently (.of_forall fun i => ⟨_, h.described i, rfl⟩)
  obtain ⟨n, -, hbusy⟩ := (frequently_exists_finite d.finite_nodes).mp hsome
  -- down from a node that takes turns again and again
  induction n using (h.realized.wellFounded_swap h.acyclic).induction with
  | _ n ih =>
  by_cases hout : ∃ᶠ i in atTop, At t turn n .output i
  · have hasks : ∃ᶠ i in atTop,
        ∃ c ∈ {c : NodeId | c.index < d.nodes.length},
          turn i = c ∧ N.Feeds n c := by
      refine (h.frequently_asks hout).mono fun i hi => ?_
      obtain ⟨-, -, p, hp, hf, -⟩ := hi
      exact ⟨_, h.described i, rfl, p, hp, hf⟩
    obtain ⟨c, -, hc⟩ := (frequently_exists_finite d.finite_nodes).mp hasks
    obtain ⟨i, -, hfeeds⟩ := hc.exists
    exact ih c hfeeds (hc.mono fun i hi => hi.1)
  · obtain ⟨q, hq, hflows⟩ := h.flows_of_busy hbusy hout
    exact ⟨n, q, hq, hflows⟩

/-! ### What flows is asked for -/

/-- A node makes output only in a call. -/
lemma calls_of_fills (h : N.Endless d D t turn) (hp : p ∈ N.inputs c)
    (hf : N.feeder p = some x) (hi : Fills t p i) : Calls t turn x i := by
  obtain ⟨hx, hmakes⟩ := h.makes hp hf hi
  exact hmakes.called.imp (fun hφ => ⟨hx, hφ⟩) fun hφ => ⟨hx, hφ⟩

/-- A node that made output does not check its inputs before it is called
again. -/
lemma not_check_of_fills (h : N.Endless d D t turn) (hp : p ∈ N.inputs c)
    (hf : N.feeder p = some x) (hi : Fills t p i) (hij : i < j)
    (hno : ∀ k, i < k → k < j → ¬ Calls t turn x k) :
    ¬ At t turn x .checkInput j := by
  rintro ⟨hj, hφ⟩
  obtain ⟨-, hmakes⟩ := h.makes hp hf hi
  refine h.phase_ne_of_no_call (Or.inl rfl) (Nat.succ_le_of_lt hij)
    (fun _ => by simp [hmakes.phase]) (fun k hk hkj hn => ?_)
    (by rw [← hj]; exact h.queued j) hφ
  exact ⟨fun hφ => hno k hk hkj (Or.inr ⟨hn, hφ⟩),
    fun hφ => absurd (Or.inl ⟨hn, hφ⟩) (hno k hk hkj)⟩

/-- In the end, the first call of a node that made output and whose output flows
is not one to process its inputs. -/
lemma eventually_asked_first (h : N.Endless d D t turn) (hp : p ∈ N.inputs c)
    (hf : N.feeder p = some x) (hflows : Flows t p) :
    ∀ᶠ i in atTop, Fills t p i → ∀ j, i < j → At t turn x .input j →
      ∃ k, i < k ∧ k < j ∧ Calls t turn x k := by
  induction x using (h.realized.wellFounded_feeds h.acyclic).induction
    generalizing c p with
  | _ x ih =>
  -- from some turn on this holds of all that the node requires, and all of that
  -- was filled since
  have hup : ∀ᶠ i in atTop, ∀ q ∈ N.inputs x, ∀ y, N.feeder q = some y →
      N.optional q = false → ∃ l₀ < i, Fills t q l₀ ∧
        ∀ l ≥ l₀, Fills t q l → ∀ m, l < m → At t turn y .input m →
          ∃ k, l < k ∧ k < m ∧ Calls t turn y k := by
    refine (eventually_all_finite (N.inputs x).finite_toSet).mpr fun q hq => ?_
    rcases hy : N.feeder q with _ | y
    · exact .of_forall fun _ _ h => by cases h
    cases ho : N.optional q with
    | true => exact .of_forall fun _ _ _ h => by cases h
    | false =>
        have hqflows := h.flows_up hp hf hflows hq (by simp [hy]) ho
        obtain ⟨a, ha⟩ := eventually_atTop.mp (ih y ⟨q, hq, hy⟩ hq hy hqflows)
        obtain ⟨l₀, hal, hl₀⟩ := (frequently_atTop.mp hqflows) a
        filter_upwards [eventually_gt_atTop l₀] with i hi y' hy' _
        cases hy'
        exact ⟨l₀, hi, hl₀, fun l hl => ha l (by omega)⟩
  filter_upwards [hup] with i hup hi j hij hj
  by_contra! hno
  have hcheck : ∀ k, i < k → k < j → ¬ At t turn x .checkInput k :=
    fun k hk hkj => h.not_check_of_fills hp hf hi hk fun l hl hlk =>
      hno l hl (by omega)
  obtain ⟨-, hmakes⟩ := h.makes hp hf hi
  have hij' : i + 1 < j := by
    refine lt_of_le_of_ne hij fun he => ?_
    have := hmakes.phase
    rw [he, hj.2] at this
    cases this
  -- an input was announced since, so that its link was filled since
  obtain ⟨q, hq, hlinked, ho, k, hik, hkj, hy, hfull⟩ :=
    h.announced_between hij' hmakes.counted hj fun k q hik hkj hc =>
      absurd hc (hcheck k (by omega) hkj)
  obtain ⟨m, him, hmk, hm, hm'⟩ := exists_change
    (P := fun k => (t k).full q = true) hik
    (by simp [hmakes.emptied q hq hlinked]) hfull
  have hmcall := h.calls_of_fills hq hy ⟨by simpa using hm, hm'⟩
  -- it was full at that time, and stayed so since it had been filled last
  obtain ⟨l₀, hl₀i, hl₀, hfirst⟩ := hup q hq _ hy ho
  obtain ⟨l, hl₀l, hli, hl, hstays⟩ := exists_last_change
    (P := fun k => (t k).full q = true) hl₀i.le (by simp [hl₀.1])
    (hmakes.required q hq hlinked ho)
  have hfill : Fills t q l :=
    ⟨by simpa using hl, hstays (l + 1) (by omega) (by omega)⟩
  -- so nobody asked for it before it was filled again
  obtain ⟨m', hlm, hmm', hcall, hbefore⟩ := exists_first (show l < m by omega) hmcall
  rcases hcall with hin | hout
  · obtain ⟨k', hlk, hkm, hk'⟩ := hfirst l hl₀l hfill m' hlm hin
    exact hbefore k' hlk hkm hk'
  · have hphase := (h.makes hq hy hfill).2.phase
    obtain ⟨k', hlk, hkm, ⟨-, hφ⟩, -, p', hp', hf', hempty⟩ :=
      h.asked_between (n := turn k) (Nat.succ_le_of_lt hlm)
        (by simp [hphase]) hout.2
    obtain rfl : p' = q := h.realized.input_unique hp' hf' hq hy
    obtain rfl : turn k' = x := h.realized.proper.owner_unique hp' hq
    rcases Nat.lt_or_ge i k' with hik' | hki
    · exact hcheck k' hik' (by omega) ⟨rfl, hφ⟩
    · rw [hstays k' (by omega) hki] at hempty
      cases hempty

/-- A node whose output flows makes output on request again and again. -/
theorem frequently_output (h : N.Endless d D t turn) (hp : p ∈ N.inputs c)
    (hf : N.feeder p = some x) (hflows : Flows t p) :
    ∃ᶠ i in atTop, At t turn x .output i := by
  obtain ⟨a, ha⟩ :=
    eventually_atTop.mp (h.eventually_asked_first hp hf hflows)
  have hfreq := hflows
  rw [Flows, frequently_atTop] at hfreq
  rw [frequently_atTop]
  intro b
  obtain ⟨i, hi, hfill⟩ := hfreq (max a b)
  obtain ⟨j, hj, hfill'⟩ := hfreq (i + 1)
  obtain ⟨k, hik, hkj, hcall, hbefore⟩ :=
    exists_first (show i < j by omega) (h.calls_of_fills hp hf hfill')
  rcases hcall with hin | hout
  · obtain ⟨l, hil, hlk, hl⟩ := ha i (by omega) hfill k hik hin
    exact absurd hl (hbefore l hil hlk)
  · exact ⟨k, by omega, hout⟩

/-- Whoever is at the end of a link that flows asks for data again and again;
and what feeds the link is not the driver, unless that is asynchronous. -/
theorem frequently_check (h : N.Endless d D t turn) (hp : p ∈ N.inputs c)
    (hf : N.feeder p = some x) (hflows : Flows t p) :
    (D ≠ x ∨ N.async x = true) ∧ ∃ᶠ i in atTop, At t turn c .checkInput i := by
  have hasks := h.frequently_asks (h.frequently_output hp hf hflows)
  obtain ⟨i, -, hD, -⟩ := hasks.exists
  refine ⟨hD, hasks.mono fun i hi => ?_⟩
  obtain ⟨hi, -, q, hq, hfq, -⟩ := hi
  obtain rfl : q = p := h.realized.input_unique hq hfq hp hf
  rwa [h.realized.proper.owner_unique hq hp] at hi

end MediaGraph.Network.Endless

/-
Nodes below the driver that need what comes from it.

* `Network.Gated`: no node below a given one can complete its count without the
  input on the way from there;
* `Network.Idle`: everything below a node rests until the node announces data;
* `Endless.idle_succ`: that stays so;
* `Endless.eventually_resting`: in the end, everything below a node rests
  whenever the node is asked for data;
* `Endless.not_gated`: a run that does not end has a node below the driver that
  completes its count without what comes from there.
-/
import MediaGraph.Proofs.Endless.Driver

namespace MediaGraph.Network

open Filter

variable {τ : Type} {d : Description} {N : Network} {D : NodeId}
  {t : ℕ → Flow (Adapter τ)} {turn : ℕ → NodeId} {n m c x K : NodeId}
  {p q : PortId} {i j : ℕ}

/-! ### Counting without an input -/

/-- An input that is linked and required. -/
def isRequired (N : Network) (q : PortId) : Bool :=
  (N.feeder q).isSome && !N.optional q

/-- No node below `n` can complete its count without the input on the way from
`n`. -/
def Gated (N : Network) (n : NodeId) : Prop :=
  ∀ m p x, Relation.ReflTransGen N.Feeds n x → p ∈ N.inputs m →
    N.feeder p = some x →
    (N.inputs m).countP (fun q => decide (q ≠ p) && N.isRequired q) <
      N.required m

/-- What is gated is so further down. -/
lemma Gated.below (h : N.Gated n) (hnm : Relation.ReflTransGen N.Feeds n m) :
    N.Gated m :=
  fun c p x hx hp hf => h c p x (hnm.trans hx) hp hf

/-- Only required inputs are counted. -/
lemma Counting.isRequired {s : Flow (Adapter τ)} (h : N.Counting s)
    (hp : p ∈ N.inputs n) (hc : s.counted p = true) : N.isRequired p = true := by
  obtain ⟨hlinked, ho⟩ := h.required hp hc
  simp [Network.isRequired, hlinked, ho]

/-- An input makes up for one in a count. -/
lemma countP_le_succ {l : List PortId} (hl : l.Nodup) (P : PortId → Bool)
    (p : PortId) : l.countP P ≤ l.countP (fun q => decide (q ≠ p) && P q) + 1 := by
  induction l with
  | nil => simp
  | cons q l ih =>
      obtain ⟨hq, hl⟩ := List.nodup_cons.mp hl
      rw [List.countP_cons, List.countP_cons]
      rcases eq_or_ne q p with rfl | hne
      · have hsame : l.countP (fun r => decide (r ≠ q) && P r) = l.countP P := by
          refine List.countP_congr fun r hr => ?_
          have : r ≠ q := by
            rintro rfl
            exact hq hr
          simp [this]
        rw [hsame]
        split <;> simp
      · have := ih hl
        cases P q <;> simp [hne] at this ⊢ <;> omega

/-- If as many members of a list have a property as a weaker one, those that have
the one have the other. -/
lemma of_countP_le {l : List PortId} {P Q : PortId → Bool}
    (hPQ : ∀ q ∈ l, P q = true → Q q = true) (hle : l.countP Q ≤ l.countP P)
    (hq : q ∈ l) (hQ : Q q = true) : P q = true := by
  induction l with
  | nil => cases hq
  | cons r l ih =>
      have hmono : l.countP P ≤ l.countP Q :=
        List.countP_mono_left fun q hq => hPQ q (by simp [hq])
      rw [List.countP_cons, List.countP_cons] at hle
      rcases List.mem_cons.mp hq with rfl | hql
      · by_contra hP
        simp only [hQ, hP, if_true] at hle
        simp at hle
        omega
      · refine ih (fun q hq => hPQ q (by simp [hq])) ?_ hql
        have hr := hPQ r (by simp)
        cases hP : P r <;> cases hQ : Q r <;> simp [hP, hQ] at hle hr ⊢ <;> omega

namespace Endless

/-! ### What rests below a node -/

/-- Nothing below `n` waits for a turn, and no input on a way from `n` is
counted. -/
def Idle (N : Network) (t : ℕ → Flow (Adapter τ)) (n : NodeId) (i : ℕ) : Prop :=
  ∀ m, Relation.TransGen N.Feeds n m → (t i).queued m = false ∧
    ∀ p ∈ N.inputs m, ∀ x, N.feeder p = some x →
      Relation.ReflTransGen N.Feeds n x → (t i).counted p = false

/-- The node whose turn it is is not below one below which everything rests. -/
lemma not_below_of_idle (h : N.Endless d D t turn) (hi : Idle N t n i) :
    ¬ Relation.TransGen N.Feeds n (turn i) := by
  intro hn
  have := (hi _ hn).1
  rw [h.queued i] at this
  cases this

/-- Everything below a node goes on to rest unless the node announces data. -/
lemma idle_succ (h : N.Endless d D t turn) (hgated : N.Gated n)
    (hi : Idle N t n i)
    (hquiet : turn i = n → ∀ m, ∀ p ∈ N.inputs m, N.feeder p = some n →
      (t i).phase n = .checkInput ∨ (t i).phase n = .checkOutput →
      (t i).full p = false) : Idle N t n (i + 1) := by
  have hturn := h.not_below_of_idle hi
  intro m hm
  have hne : m ≠ turn i := by
    rintro rfl
    exact hturn hm
  have hcounted : ∀ p ∈ N.inputs m, ∀ x, N.feeder p = some x →
      Relation.ReflTransGen N.Feeds n x → (t (i + 1)).counted p = false := by
    intro p hp x hx hnx
    by_contra hc
    rcases (h.turns i).counted h.realized.proper hp (by simpa using hc)
        ((hi m hm).2 p hp x hx hnx) with ⟨he, -⟩ | ⟨hf, hfull, hφ⟩
    · exact hne he
    · obtain rfl : x = turn i := Option.some.inj (hx.symm.trans hf)
      rcases Relation.reflTransGen_iff_eq_or_transGen.mp hnx with he | hbelow
      · rw [hquiet he m p hp (he ▸ hf) (he ▸ hφ)] at hfull
        cases hfull
      · exact hturn hbelow
  refine ⟨?_, hcounted⟩
  by_contra hq
  rcases (h.turns i).queued_other h.realized.proper hne (by simpa using hq) with
    ⟨hq, -⟩ | ⟨-, hasks, -⟩ | ⟨-, hφ⟩
  · exact absurd ((hi m hm).1.symm.trans hq) Bool.false_ne_true
  · exact hturn (.tail hm (feeds_of_asksIn _ _ hasks))
  · -- its count would be complete without the input on the way from `n`
    obtain ⟨-, hready⟩ := (h.counting (i + 1)).complete (by simpa using hq) hφ
    obtain ⟨x, hnx, p, hp, hx⟩ := Relation.TransGen.tail'_iff.mp hm
    have hlt := hgated m p x hnx hp hx
    rw [← hready, (h.counting (i + 1)).ready] at hlt
    refine absurd hlt (Nat.not_lt.mpr (List.countP_mono_left fun q hq hc => ?_))
    have hqp : q ≠ p := by
      rintro rfl
      exact absurd ((hcounted q hq x hx hnx).symm.trans hc) Bool.false_ne_true
    simp [hqp, (h.counting (i + 1)).isRequired hq hc]

/-! ### Requests on their way up -/

/-- A node waits for its turn to answer a request. -/
def Pending (t : ℕ → Flow (Adapter τ)) (n : NodeId) (i : ℕ) : Prop :=
  (t i).queued n = true ∧
    ((t i).phase n = .output ∨ (t i).phase n = .checkInput)

/-- Everything below `n` rests, and no link that `n` feeds holds data. -/
structure Resting (N : Network) (t : ℕ → Flow (Adapter τ)) (n : NodeId)
    (i : ℕ) : Prop where
  idle : Idle N t n i
  empty : ∀ m, ∀ p ∈ N.inputs m, N.feeder p = some n → (t i).full p = false

/-- A node whose turn it is not puts no data on links. -/
lemma full_succ (h : N.Endless d D t turn) (hn : turn i ≠ n) (hp : p ∈ N.inputs m)
    (hf : N.feeder p = some n) (he : (t i).full p = false) :
    (t (i + 1)).full p = false := by
  by_contra hfull
  exact hn (h.makes hp hf ⟨he, by simpa using hfull⟩).1

/-- Everything below a node rests when it is asked by the one that it feeds, if
that was so before for the latter. -/
lemma resting_of_asked (h : N.Endless d D t turn) (hgated : N.Gated n)
    (hn : turn i ≠ n) (hφ : (t i).phase (turn i) = .checkInput)
    (hasks : N.asksIn (some D) (t i).slot (turn i) n = true)
    (hrest : Resting N t (turn i) i) : Resting N t n (i + 1) := by
  obtain ⟨q, hq, hf, hstatus, -⟩ := asksIn_eq_true.mp hasks
  have hfeeds : N.Feeds n (turn i) := ⟨q, hq, hf⟩
  have hidle := h.idle_succ (hgated.below (.single hfeeds)) hrest.idle
    fun _ m p hp hf _ => hrest.empty m p hp hf
  -- every way down from `n` starts with the node that asks
  have hway : ∀ {m}, Relation.TransGen N.Feeds n m →
      Relation.ReflTransGen N.Feeds (turn i) m := by
    intro m hm
    obtain ⟨c, hc, hcm⟩ := Relation.TransGen.head'_iff.mp hm
    rwa [h.realized.feeds_unique hc hfeeds] at hcm
  have hqempty : (t i).full q = false := by
    simp [Flow.full, Slot.hasData, hstatus]
  have hqcounted : (t (i + 1)).counted q = false := by
    by_contra hc
    have := (h.turns i).counted_of_check h.realized.proper hφ hq (by simpa using hc)
    simp [hstatus] at this
  refine ⟨fun m hm => ⟨?_, fun p hp x hx hnx => ?_⟩, fun m p hp hfp => ?_⟩
  · rcases Relation.reflTransGen_iff_eq_or_transGen.mp (hway hm) with rfl | hm
    · by_contra hqueued
      have := ((h.turns i).queued_self h.realized.proper (by simpa using hqueued)).1
      simp [hφ] at this
    · exact (hidle m hm).1
  · rcases Relation.reflTransGen_iff_eq_or_transGen.mp hnx with rfl | hnx
    · rwa [h.realized.input_unique hp hx hq hf]
    · have hwx := hway hnx
      exact (hidle m (.tail' hwx ⟨p, hp, hx⟩)).2 p hp x hx hwx
  · obtain rfl := h.realized.input_unique hp hfp hq hf
    exact h.full_succ hn hp hfp hqempty

/-- While a node answers a request everything below rests, if that was so before
for the node and for the one that it feeds. -/
lemma resting_succ (h : N.Endless d D t turn) (hgated : N.Gated n)
    (hinput : At t turn n .input i → ¬ Pending t n (i + 1))
    (hself : Pending t n i → Resting N t n i)
    (hnext : ∀ c, N.Feeds n c → Pending t c i → Resting N t c i)
    (hpending : Pending t n (i + 1)) : Resting N t n (i + 1) := by
  have hproper := h.realized.proper
  by_cases hn : turn i = n
  · have hturns := h.turns i
    rw [hn] at hturns
    rcases (hturns.queued_self hproper hpending.1).1 with ⟨hφ, -⟩ | hφ
    · exact absurd hpending (hinput ⟨hn, hφ⟩)
    · have hrest := hself ⟨hn ▸ h.queued i, Or.inl hφ⟩
      refine ⟨h.idle_succ hgated hrest.idle fun _ _ _ _ _ hc => ?_,
        fun m p hp hf => ?_⟩
      · simp [hφ] at hc
      · by_contra hfull
        have hphase := (h.makes hp hf
          ⟨hrest.empty m p hp hf, by simpa using hfull⟩).2.phase
        rcases hpending.2 with hφ' | hφ' <;> simp [hφ'] at hphase
  · rcases (h.turns i).queued_other hproper (Ne.symm hn) hpending.1 with
      ⟨hq, hφ⟩ | ⟨hφ, hasks, -⟩ | ⟨-, hφ⟩
    · have hrest := hself ⟨hq, hφ ▸ hpending.2⟩
      exact ⟨h.idle_succ hgated hrest.idle fun he => absurd he hn,
        fun m p hp hf => h.full_succ hn hp hf (hrest.empty m p hp hf)⟩
    · exact h.resting_of_asked hgated hn hφ hasks
        (hnext _ (feeds_of_asksIn _ _ hasks) ⟨h.queued i, Or.inr hφ⟩)
    · rcases hpending.2 with hφ' | hφ' <;> simp [hφ'] at hφ

/-! ### In the end -/

/-- Links about which something was said are not untouched again. -/
lemma status_ne_ok (h : N.Endless d D t turn) (hij : i ≤ j)
    (hi : ((t i).slot q).status ≠ .ok) : ((t j).slot q).status ≠ .ok := by
  induction j, hij using Nat.le_induction with
  | base => exact hi
  | succ j _ ih => exact (h.turns j).status_ne_ok h.realized.proper ih

/-- In the end, a node whose input flows makes output whenever it processes its
inputs, if it cannot complete its count without that one. -/
lemma eventually_makes (h : N.Endless d D t turn) (hm : d.isSink m ≠ true)
    (hp : p ∈ N.inputs m) (hflows : Flows t p)
    (hlt : (N.inputs m).countP (fun q => decide (q ≠ p) && N.isRequired q) <
      N.required m) :
    ∀ᶠ i in atTop, At t turn m .input i → (t (i + 1)).phase m = .checkOutput := by
  -- after it made output for the first time, it asked for all that it requires
  have hkind : ∀ i x, (t i).processor m = some x → x.kind? ≠ some .sink := by
    intro i x hx hk
    obtain ⟨spec, hspec, hkind⟩ := (h.staffed i).exists_spec hx
    rw [hk] at hkind
    exact hm (Description.isSink_iff.mpr
      ⟨spec, hspec, (Option.some.inj hkind).symm⟩)
  obtain ⟨i₀, hfull, hempty⟩ := (flows_iff.mp hflows).exists
  obtain ⟨hturn, hout⟩ :=
    (h.turns i₀).drains h.realized.proper hp hfull hempty
  rw [← hturn] at hout
  have hmakes : N.Makes m (t i₀) (t (i₀ + 1)) := by
    rcases hout with ⟨r, hr, he, hf⟩ | ⟨x, hx, hk⟩
    · obtain ⟨c, hc⟩ := h.realized.proper.target hr
      exact (h.makes hc ((h.realized.proper.feeder hc m).mpr hr) ⟨he, hf⟩).2
    · exact absurd hk (hkind i₀ x hx)
  have hasked : ∀ q ∈ N.inputs m, N.isRequired q = true →
      ((t (i₀ + 1)).slot q).status ≠ .ok := by
    intro q hq hr
    simp only [Network.isRequired, Bool.and_eq_true, Bool.not_eq_true'] at hr
    have hbefore := hmakes.required q hq hr.1 hr.2
    simp only [Flow.full, Slot.hasData, decide_eq_true_eq] at hbefore
    rcases (h.turns i₀).kept h.realized.proper q with hk | hk | hk <;> rw [hk] <;>
      simp [hbefore]
  filter_upwards [eventually_gt_atTop i₀] with i hi hinput
  obtain ⟨hpos, hready⟩ := (h.counting i).complete
    (by rw [← hinput.1]; exact h.queued i) hinput.2
  rw [(h.counting i).ready] at hready
  -- it counted all that it requires
  have hcounted : ∀ q ∈ N.inputs m, N.isRequired q = true →
      (t i).full q = true := by
    intro q hq hr
    have hle : (N.inputs m).countP N.isRequired ≤
        (N.inputs m).countP (t i).counted := by
      have := countP_le_succ (h.realized.proper.nodup m) N.isRequired p
      omega
    have hc := of_countP_le
      (fun q hq hc => (h.counting i).isRequired hq hc) hle hq hr
    rcases (h.counting i).offered hq hc with hst | hst
    · simp [Flow.full, Slot.hasData, hst]
    · exact absurd hst (h.status_ne_ok (by omega) (hasked q hq hr))
  have hturns := h.turns i
  rw [hinput.1] at hturns
  refine hturns.phase_of_input hinput.2 (hkind i) (fun q hq hlinked ho => ?_) ?_
  · exact hcounted q hq (by simp [Network.isRequired, hlinked, ho])
  · rw [← hready, List.countP_pos_iff] at hpos
    obtain ⟨q, hq, hc⟩ := hpos
    exact ⟨q, hq, ((h.counting i).required hq hc).1,
      hcounted q hq ((h.counting i).isRequired hq hc)⟩

/-- Below a node whose output flows, all outputs flow down to a sink. -/
lemma flows_below (h : N.Endless d D t turn) (hflows : ∃ q ∈ N.targets c, Flows t q)
    (hcx : Relation.ReflTransGen N.Feeds c x) :
    (∃ q ∈ N.targets x, Flows t q) ∨ d.isSink x = true := by
  induction hcx with
  | refl => exact Or.inl hflows
  | tail _ hyx ih =>
      obtain ⟨p, hp, hf⟩ := hyx
      rcases ih with ⟨q, hq, hqflows⟩ | hsink
      · obtain rfl := h.realized.target_unique hq
          ((h.realized.proper.feeder hp _).mp hf)
        exact h.flows_down hp hqflows
      · exact absurd ⟨p, hp, hf⟩ (h.not_feeds_of_isSink hsink)

/-- In the end, everything below a node rests whenever the node is about to answer
a request, if its output flows and it does not wait after its inputs were
processed. -/
lemma eventually_resting (h : N.Endless d D t turn) (hgated : N.Gated c)
    (hflows : ∃ q ∈ N.targets c, Flows t q)
    (hself : ∀ i, At t turn c .input i → (t (i + 1)).queued c = false)
    (hcx : Relation.ReflTransGen N.Feeds c x) :
    ∀ᶠ i in atTop, Pending t x i → Resting N t x i := by
  induction x using (h.realized.wellFounded_swap h.acyclic).induction with
  | _ x ih =>
  rcases h.flows_below hflows hcx with ⟨q, hq, hqflows⟩ | hsink
  · obtain ⟨m, hm⟩ := h.realized.proper.target hq
    have hf := (h.realized.proper.feeder hm x).mpr hq
    have hnext := ih m ⟨q, hm, hf⟩ (hcx.tail ⟨q, hm, hf⟩)
    have hinput : ∀ᶠ i in atTop, At t turn x .input i → ¬ Pending t x (i + 1) := by
      rcases Relation.reflTransGen_iff_eq_or_transGen.mp hcx with rfl | hbelow
      · refine .of_forall fun i hi hpending => ?_
        exact absurd ((hself i hi).symm.trans hpending.1) Bool.false_ne_true
      · obtain ⟨y, hcy, p, hp, hy⟩ := Relation.TransGen.tail'_iff.mp hbelow
        have hpflows : Flows t p := by
          rcases h.flows_below hflows hcy with ⟨r, hr, hrflows⟩ | hsink
          · rwa [h.realized.target_unique hr
              ((h.realized.proper.feeder hp y).mp hy)] at hrflows
          · exact absurd ⟨p, hp, hy⟩ (h.not_feeds_of_isSink hsink)
        have hx : d.isSink x ≠ true :=
          fun hsink => h.not_feeds_of_isSink hsink ⟨q, hm, hf⟩
        refine (h.eventually_makes hx hp hpflows (hgated x p y hcy hp hy)).mono ?_
        rintro i hi hat ⟨-, hφ⟩
        simp [hi hat] at hφ
    have hstep : ∀ᶠ i in atTop, (Pending t x i → Resting N t x i) →
        Pending t x (i + 1) → Resting N t x (i + 1) := by
      filter_upwards [hnext, hinput] with i hnext hinput hi
      refine h.resting_succ (hgated.below hcx) hinput hi ?_
      rintro m' ⟨r, hr, hfr⟩
      rwa [h.realized.feeds_unique ⟨r, hr, hfr⟩ ⟨q, hm, hf⟩]
    -- when the node made output it does not answer a request
    obtain ⟨a, ha⟩ := eventually_atTop.mp hstep
    obtain ⟨i, hai, hi⟩ := (frequently_atTop.mp hqflows) a
    refine eventually_atTop.mpr ⟨i + 1, fun j hj => ?_⟩
    induction j, hj using Nat.le_induction with
    | base =>
        rintro ⟨-, hφ⟩
        simp [(h.makes hm hf hi).2.phase] at hφ
    | succ j hj ih => exact ha j (by omega) ih
  · have hnone : ∀ m, ¬ N.Feeds x m := fun m => h.not_feeds_of_isSink hsink
    refine .of_forall fun i _ => ⟨fun m hm => ?_, fun m p hp hf => ?_⟩
    · obtain ⟨c, hc, -⟩ := Relation.TransGen.head'_iff.mp hm
      exact absurd hc (hnone c)
    · exact absurd ⟨p, hp, hf⟩ (hnone m)

/-- The output of a node does not flow if it is gated, checks its inputs again and
again, and does not wait after its inputs were processed. -/
lemma not_flows_of_gated (h : N.Endless d D t turn) (hgated : N.Gated c)
    (hself : ∀ i, At t turn c .input i → (t (i + 1)).queued c = false)
    (hcheck : ∃ᶠ i in atTop, At t turn c .checkInput i) :
    ¬ ∃ q ∈ N.targets c, Flows t q := by
  intro hflows
  obtain ⟨i, hi, hrest⟩ := (hcheck.and_eventually
    (h.eventually_resting hgated hflows hself .refl)).exists
  replace hrest := hrest ⟨hi.1 ▸ h.queued i, Or.inr hi.2⟩
  -- from now on everything below rests
  have hidle : ∀ j, i + 1 ≤ j → Idle N t c j ∧
      ((t j).queued c = true → (t j).phase c = .input) := by
    intro j hj
    induction j, hj using Nat.le_induction with
    | base =>
        refine ⟨h.idle_succ hgated hrest.idle fun _ m p hp hf _ =>
          hrest.empty m p hp hf, fun hq => ?_⟩
        have := h.turns i
        rw [hi.1] at this
        simpa [hi.2] using (this.queued_self h.realized.proper hq).1
    | succ j hj ih =>
        obtain ⟨hidle, hphase⟩ := ih
        by_cases hc : turn j = c
        · have hφ := hphase (hc ▸ h.queued j)
          refine ⟨h.idle_succ hgated hidle fun _ _ _ _ _ hφ' => ?_, fun hq => ?_⟩
          · simp [hφ] at hφ'
          · exact absurd ((hself j ⟨hc, hφ⟩).symm.trans hq) Bool.false_ne_true
        · refine ⟨h.idle_succ hgated hidle fun he => absurd he hc, fun hq => ?_⟩
          rcases (h.turns j).queued_other h.realized.proper (Ne.symm hc) hq with
            ⟨hq, hφ⟩ | ⟨-, hasks, -⟩ | ⟨-, hφ⟩
          · rw [hφ]
            exact hphase hq
          · exact absurd (.single (feeds_of_asksIn _ _ hasks))
              (h.not_below_of_idle hidle)
          · exact hφ
  obtain ⟨q, hq, hqflows⟩ := hflows
  obtain ⟨m, hm⟩ := h.realized.proper.target hq
  have hfeeds : N.Feeds c m := ⟨q, hm, (h.realized.proper.feeder hm c).mpr hq⟩
  obtain ⟨j, hj, hturn⟩ := (frequently_atTop.mp (h.frequently_turn hm hqflows)) (i + 1)
  exact h.not_below_of_idle (hidle j hj).1 (hturn ▸ .single hfeeds)

/-- In a run that does not end, some node below the driver completes its count
without the input on the way from there. -/
theorem not_gated (h : N.Endless d D t turn)
    (hD : N.async D = true → N.inputs D ≠ []) : ¬ N.Gated D := by
  intro hgated
  obtain ⟨K, p, hK, hDK, hp, hflows⟩ := h.exists_sink
  -- up from the sink as far as links flow
  obtain ⟨c, hDc, hcflows, hc⟩ : ∃ c, Relation.ReflTransGen N.Feeds D c ∧
      (∃ q ∈ N.targets c, Flows t q) ∧ (c = D ∨ ∃ y p,
        Relation.ReflTransGen N.Feeds D y ∧ p ∈ N.inputs c ∧
          N.feeder p = some y ∧ ¬ Flows t p) := by
    have key : ∀ {y}, Relation.ReflTransGen N.Feeds D y →
        (∃ q ∈ N.targets y, Flows t q) →
        ∃ c, Relation.ReflTransGen N.Feeds D c ∧
          (∃ q ∈ N.targets c, Flows t q) ∧ (c = D ∨ ∃ y p,
            Relation.ReflTransGen N.Feeds D y ∧ p ∈ N.inputs c ∧
              N.feeder p = some y ∧ ¬ Flows t p) := by
      intro y hDy
      induction hDy with
      | refl => exact fun hy => ⟨D, .refl, hy, Or.inl rfl⟩
      | @tail z y hDz hzy ih =>
          obtain ⟨r, hr, hf⟩ := hzy
          intro hy
          by_cases hrflows : Flows t r
          · exact ih ⟨r, (h.realized.proper.feeder hr z).mp hf, hrflows⟩
          · exact ⟨y, hDz.tail ⟨r, hr, hf⟩, hy, Or.inr ⟨z, r, hDz, hr, hf, hrflows⟩⟩
    obtain rfl | ⟨y, hDy, r, hr, hf⟩ := hDK.cases_tail
    · exact absurd rfl (h.driver_ne_sink hK hp hflows)
    · obtain rfl := h.eq_of_mem_inputs hK hp hr
      exact key hDy ⟨r, (h.realized.proper.feeder hr y).mp hf, hflows⟩
  have hcinput := hcflows
  obtain ⟨q, hq, hqflows⟩ := hcinput
  obtain ⟨m, hm⟩ := h.realized.proper.target hq
  have hf := (h.realized.proper.feeder hm c).mpr hq
  have hin : N.inputs c ≠ [] := by
    rcases hc with rfl | ⟨y, r, -, hr, -⟩
    · exact hD ((h.frequently_check hm hf hqflows).1.resolve_left (by simp))
    · exact List.ne_nil_of_mem hr
  obtain ⟨r, hr, hrflows⟩ := h.exists_flows_up hm hf hqflows hin
  obtain ⟨x, hx⟩ := h.exists_feeder hr hrflows
  refine h.not_flows_of_gated (hgated.below hDc) (fun i hi => ?_)
    (h.frequently_check hr hx hrflows).2 hcflows
  rcases hc with rfl | ⟨y, s, hDy, hs, hy, hnot⟩
  · by_contra hqueued
    have := h.turns i
    rw [hi.1] at this
    simpa [hi.2] using
      (this.queued_self h.realized.proper (by simpa using hqueued)).1
  · -- the node does not count the input on the way from the driver
    have ho : N.optional s = true := by
      by_contra ho
      exact hnot (h.flows_up hm hf hqflows hs (by simp [hy]) (by simpa using ho))
    obtain ⟨-, hready⟩ := (h.counting i).complete
      (by rw [← hi.1]; exact h.queued i) hi.2
    have hlt := hgated c s y hDy hs hy
    rw [← hready, (h.counting i).ready] at hlt
    refine absurd hlt (Nat.not_lt.mpr (List.countP_mono_left fun r hr hc => ?_))
    have hrequired := (h.counting i).isRequired hr hc
    have hrs : r ≠ s := by
      rintro rfl
      simp [Network.isRequired, ho] at hrequired
    simp [hrs, hrequired]

end Endless

end MediaGraph.Network

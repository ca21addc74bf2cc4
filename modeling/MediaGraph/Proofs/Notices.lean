/-
What the turn of a node does to the other nodes.

Another node notices a turn in two ways: it is asked for output, and links to its
inputs are announced. Nothing else of it changes.

* `Network.AgreeAt`: two flows say the same of the demand on a node;
* `Network.Heeds`: what announcements do to a node: its unmarked inputs with data
  are counted, and afterwards it waits exactly if its count is complete;
* `Network.withAsked`, `Network.notices`: whom a turn asks, and what it announces;
* `Network.heeds_serve`: a turn asks and announces, and does nothing else to the
  other nodes.
-/
import MediaGraph.Proofs.Rounds

namespace MediaGraph.Network

variable {σ : Type} {N : Network} {D : Option NodeId} {c m : NodeId} {s t u : Flow σ}

/-! ### Announcements -/

/-- Two flows say the same of whether a node waits, in which phase, and which of
its inputs are counted. -/
structure AgreeAt (N : Network) (c : NodeId) (s t : Flow σ) : Prop where
  queued : t.queued c = s.queued c
  phase : t.phase c = s.phase c
  ready : t.ready c = s.ready c
  counted : ∀ p ∈ N.inputs c, t.counted p = s.counted p

/-- What announcing the links to the inputs `l` does to a node `c`. -/
structure Heeds (N : Network) (l : List PortId) (c : NodeId) (s t : Flow σ) : Prop where
  counted : ∀ p ∈ N.inputs c, t.counted p = (s.counted p || (decide (p ∈ l) && N.isNew s p))
  ready : s.ready c ≤ t.ready c
  silent : (∀ p ∈ N.inputs c, p ∉ l) → N.AgreeAt c s t
  heard : (∃ p ∈ N.inputs c, p ∈ l) →
    (t.queued c = true ↔ 0 < N.required c ∧ t.ready c = N.required c) ∧
      (t.queued c = true → t.phase c = .input)

lemma AgreeAt.refl (s : Flow σ) : N.AgreeAt c s s := ⟨rfl, rfl, rfl, fun _ _ => rfl⟩

lemma AgreeAt.symm (h : N.AgreeAt c s t) : N.AgreeAt c t s :=
  ⟨h.queued.symm, h.phase.symm, h.ready.symm, fun p hp => (h.counted p hp).symm⟩

lemma AgreeAt.trans (h : N.AgreeAt c s t) (h' : N.AgreeAt c t u) : N.AgreeAt c s u where
  queued := h'.queued.trans h.queued
  phase := h'.phase.trans h.phase
  ready := h'.ready.trans h.ready
  counted p hp := (h'.counted p hp).trans (h.counted p hp)

/-- Where nothing is announced nothing changes. -/
lemma AgreeAt.heeds (h : N.AgreeAt c s t) : N.Heeds [] c s t where
  counted p hp := by simpa using h.counted p hp
  ready := Nat.le_of_eq h.ready.symm
  silent _ := h
  heard := by simp

/-- What announcements do depends on what the flow says of the node and on the
data in its links. -/
lemma Heeds.of_agreeAt {l : List PortId} (hfull : t.full = s.full)
    (hst : N.AgreeAt c s t) (h : N.Heeds l c t u) : N.Heeds l c s u where
  counted p hp := by
    have hnew : N.isNew t p = N.isNew s p := by
      rw [isNew, isNew, hfull, hst.counted p hp]
    rw [h.counted p hp, hst.counted p hp, hnew]
  ready := hst.ready ▸ h.ready
  silent hl := hst.trans (h.silent hl)
  heard := h.heard

/-- One link is announced, to `b`. -/
lemma heeds_announce (hN : N.Proper) {b : NodeId} {p : PortId} (hp : p ∈ N.inputs b)
    (s : Flow σ) : N.Heeds [p] c s (N.announce s p) := by
  rw [N.announce_eq hN hp]
  rcases eq_or_ne c b with rfl | hne
  · refine ⟨fun q _ => ?_, ?_, fun hl => absurd (List.mem_singleton_self p) (hl p hp),
      fun _ => ⟨?_, fun hq => ?_⟩⟩
    · rcases eq_or_ne q p with rfl | hq <;> simp [*]
    · simp [readyAfter]
    · simp [completes]
    · simp only [Function.update_self] at hq
      simp [hq]
  · -- the input does not belong to this node
    have hother : ∀ q ∈ N.inputs c, q ≠ p := by
      rintro q hq rfl
      exact hne (hN.owner_unique hq hp)
    have hagree : N.AgreeAt c s { s with
        queued := Function.update s.queued b (N.completes s b p)
        phase := if N.completes s b p then Function.update s.phase b .input else s.phase
        ready := Function.update s.ready b (N.readyAfter s b p)
        counted := Function.update s.counted p (s.counted p || N.isNew s p) } :=
      ⟨by simp [hne], by dsimp only; split <;> simp [hne], by simp [hne],
        fun q hq => by simp [hother q hq]⟩
    refine ⟨fun q hq => ?_, Nat.le_of_eq hagree.ready.symm, fun _ => hagree, fun hheard => ?_⟩
    · simp [hother q hq]
    · obtain ⟨q, hq, hqp⟩ := hheard
      exact absurd (List.mem_singleton.mp hqp) (hother q hq)

/-- Announcements follow on each other. -/
lemma Heeds.cons {p : PortId} {l : List PortId} (h : N.Heeds [p] c s t)
    (hfull : t.full = s.full) (h' : N.Heeds l c t u) : N.Heeds (p :: l) c s u where
  counted q hq := by
    have hmark := h.counted q hq
    have hmark' := h'.counted q hq
    simp only [isNew, hfull, List.mem_singleton] at hmark hmark'
    rw [hmark', hmark, isNew]
    by_cases hqp : q = p <;> cases s.counted q <;> cases s.full q <;>
      cases N.optional q <;> simp [hqp]
  ready := Nat.le_trans h.ready h'.ready
  silent hl := (h.silent fun q hq hqp => hl q hq (by simp_all)).trans
    (h'.silent fun q hq hql => hl q hq (List.mem_cons_of_mem _ hql))
  heard := by
    rintro ⟨q, hq, hql⟩
    by_cases hrest : ∃ r ∈ N.inputs c, r ∈ l
    · exact h'.heard hrest
    · -- the node does not notice the later announcements
      push Not at hrest
      have hlater := h'.silent hrest
      have hqp : q = p := (List.mem_cons.mp hql).resolve_right (hrest q hq)
      rw [hlater.queued, hlater.phase, hlater.ready]
      exact h.heard ⟨q, hq, List.mem_singleton.mpr hqp⟩

lemma full_announce (hN : N.Proper) {b : NodeId} {p : PortId} (hp : p ∈ N.inputs b)
    (s : Flow σ) : (N.announce s p).full = s.full := by
  rw [N.announce_eq hN hp]
  rfl

/-- The outputs of a node are announced. -/
lemma heeds_checkOut (hN : N.Proper) (m : NodeId) (s : Flow σ) :
    N.Heeds (N.targets m) c s (N.checkOut m s) := by
  have key : ∀ (l : List PortId) (s : Flow σ), (∀ p ∈ l, ∃ b, p ∈ N.inputs b) →
      N.Heeds l c s (l.foldl N.announce s) := by
    intro l
    induction l with
    | nil => exact fun s _ => (AgreeAt.refl s).heeds
    | cons p l ih =>
        intro s hl
        obtain ⟨b, hp⟩ := hl p List.mem_cons_self
        exact (heeds_announce hN hp s).cons (full_announce hN hp s)
          (ih _ fun q hq => hl q (List.mem_cons_of_mem _ hq))
  exact key _ s fun p hp => hN.target hp

/-- A node is not linked to itself, so it does not notice what it announces. -/
lemma agreeAt_checkOut_self (hN : N.Proper) (m : NodeId) (s : Flow σ) :
    N.AgreeAt m s (N.checkOut m s) :=
  (heeds_checkOut hN m s).silent fun _ hp hpm => hN.not_mem_inputs hpm hp

/-! ### Turns -/

/-- A turn of this node goes on to its outputs: it checks its inputs and requires
one of them, if it has any that are required, or it checks its outputs. -/
def Proceeds (N : Network) (m : NodeId) (s : Flow σ) : Prop :=
  s.phase m = .checkOutput ∨ s.phase m = .checkInput ∧ N.demandsNothing m = false

instance (N : Network) (m : NodeId) (s : Flow σ) : Decidable (N.Proceeds m s) :=
  inferInstanceAs (Decidable (_ ∨ _))

/-- The links that are announced in the turn of a node. -/
def notices (N : Network) (m : NodeId) (s : Flow σ) : List PortId :=
  if N.Proceeds m s then N.targets m else []

/-- The turn of a node asks another one for output. -/
def asked (N : Network) (D : Option NodeId) (m : NodeId) (s : Flow σ) (x : NodeId) : Bool :=
  decide (s.phase m = .checkInput) && !N.demandsNothing m && N.asksIn D s.slot m x

/-- The flow after the turn of a node asked others for output. -/
def withAsked (N : Network) (D : Option NodeId) (m : NodeId) (s : Flow σ) : Flow σ :=
  { s with
    queued := fun x => s.queued x || N.asked D m s x
    phase := fun x => if N.asked D m s x then .output else s.phase x }

/-- A node that is not asked. -/
lemma agreeAt_withAsked (h : N.asked D m s c = false) : N.AgreeAt c (N.withAsked D m s) s :=
  ⟨by simp [withAsked, h], by simp [withAsked, h], rfl, fun _ _ => rfl⟩

/-- A node that has left the queue for its turn is all that changed. -/
lemma agreeAt_left (hc : c ≠ m) : N.AgreeAt c s (s.dequeue m).countTurn :=
  ⟨by simp [Flow.dequeue, Flow.countTurn, hc], rfl, rfl, fun _ _ => rfl⟩

/-- A node that starts a new round is all that changed. -/
lemma agreeAt_reset (hN : N.Proper) (hc : c ≠ m) (s : Flow σ) :
    N.AgreeAt c s (N.reset m s) :=
  ⟨rfl, rfl, by simp [reset, hc],
    fun p hp => if_neg fun hpm => hc (hN.owner_unique hp hpm)⟩

variable [Processor σ]

/-- A call of another node. -/
lemma agreeAt_call (hN : N.Proper) (hc : c ≠ m) (x : σ) (side : Side) (s : Flow σ) :
    N.AgreeAt c s (report D m side (N.call m x side s)).flow := by
  have hwrite : ∀ (y : σ) (v : PortView) (t : Flow σ),
      N.AgreeAt c t ((N.writeView m v (t.setProcessor m y)).countCall side) := by
    intro y v t
    obtain ⟨slot, hslot⟩ := N.exists_writeView_eq m v (t.setProcessor m y)
    rw [hslot]
    exact ⟨rfl, rfl, rfl, fun _ _ => rfl⟩
  have hdrop : ∀ t : Flow σ, N.AgreeAt c t (N.dropConsumed m t) := by
    intro t
    rw [N.dropConsumed_eq hN]
    exact ⟨rfl, rfl, by simp [hc],
      fun p hp => if_neg fun hpm => hc (hN.owner_unique hp hpm)⟩
  have hphase : ∀ (t : Flow σ) (φ : Phase), N.AgreeAt c t (t.setPhase m φ) :=
    fun t φ => ⟨rfl, by simp [Flow.setPhase, hc], rfl, fun _ _ => rfl⟩
  have hcall : N.AgreeAt c s (N.call m x side s).2 := by
    cases side with
    | input =>
        have hcalled := fun y v => (agreeAt_reset hN hc s).trans (hwrite y v _)
        simp only [Network.call]
        split
        · exact (hcalled _ _).trans (hphase _ _)
        · exact hcalled _ _
    | output =>
        have hcalled := fun y v => (hwrite y v s).trans (hdrop _)
        simp only [Network.call]
        split
        · exact (hcalled _ _).trans (hphase _ _)
        · exact hcalled _ _
  refine hcall.trans ⟨queued_report_of_ne _ hc, ?_, ?_, fun p _ => ?_⟩
  · rw [phase_report]
  · rw [ready_report]
  · rw [counted_report]

/-- The turn of a node asks others for output and announces its own; nothing else
happens to the other nodes. -/
theorem heeds_serve (hN : N.Proper) (hc : c ≠ m) {x : σ} (hx : s.processor m = some x) :
    N.Heeds (N.notices m s) c (N.withAsked D m s) (N.serve D m s).flow := by
  have hleft : N.AgreeAt c s (s.dequeue m).countTurn := agreeAt_left hc
  -- a turn that does not go on to the outputs of its node asks nobody
  have hquiet : ∀ {t : Flow σ}, ¬ N.Proceeds m s → N.AgreeAt c (s.dequeue m).countTurn t →
      N.Heeds (N.notices m s) c (N.withAsked D m s) t := by
    intro t hno ht
    have hasked : N.asked D m s c = false := by
      by_contra hasked
      simp only [asked, Bool.not_eq_false, Bool.and_eq_true, decide_eq_true_eq,
        Bool.not_eq_true'] at hasked
      exact hno (Or.inr hasked.1)
    rw [notices, if_neg hno]
    exact (((agreeAt_withAsked hasked).trans hleft).trans ht).heeds
  rw [serve, hx]
  rcases hφ : s.phase m
  all_goals
    have hφ' : (s.dequeue m).countTurn.phase m = _ := hφ
    simp only [serveNode, hφ']
  case input | output =>
    exact hquiet (by simp [Proceeds, hφ]) (agreeAt_call hN hc _ _ _)
  case checkInput =>
    split
    · rename_i hnone
      exact hquiet (by simp [Proceeds, hφ, hnone]) (agreeAt_reset hN hc _)
    · rename_i hsome
      have hgoes : N.Proceeds m s := Or.inr ⟨hφ, by simpa using hsome⟩
      rw [notices, if_pos hgoes]
      refine (heeds_checkOut hN m _).of_agreeAt ?_ ?_
      · rw [checkIn_eq]
        rfl
      · rw [checkIn_eq]
        have hsome : N.demandsNothing m = false := by simpa using hsome
        refine ⟨?_, ?_, by simp [withAsked, hc, Flow.countTurn, Flow.dequeue],
          fun p hp => if_neg fun hpm => hc (hN.owner_unique hp hpm)⟩
        · simp [withAsked, asked, hφ, hsome, hc, Flow.countTurn, Flow.dequeue]
        · simp only [withAsked, asked, hφ, hsome, decide_true, Bool.not_false, Bool.true_and]
          rfl
  case checkOutput =>
    have hgoes : N.Proceeds m s := Or.inl hφ
    have hasked : N.asked D m s c = false := by simp [asked, hφ]
    rw [notices, if_pos hgoes]
    exact Heeds.of_agreeAt (t := (s.dequeue m).countTurn) rfl
      ((agreeAt_withAsked hasked).trans hleft) (heeds_checkOut hN m _)

end MediaGraph.Network

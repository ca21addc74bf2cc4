/-
Counts of ready inputs.

* `Network.Counting`: a node counts linked and required inputs that hold data
  or about which nothing was said yet, and a node that waits to process its
  inputs counts as many as it requires;
* `Counting.call`, `Counting.checkIn`, `Counting.checkOut`: every part of a turn
  keeps that;
* `Counting.ends`: so does every activation.
-/
import MediaGraph.Proofs.History
import MediaGraph.Proofs.Stock

namespace MediaGraph

/-- When an activation starts only its driver waits, in the phase of its mode. -/
lemma Flow.waits_start {σ : Type} {s : Flow σ} {mode : Mode} {m n : NodeId}
    (hqueued : ∀ m, s.queued m = false) (hm : (s.start mode n).queued m = true) :
    m = n ∧ (s.start mode n).phase m = mode.phase := by
  have hmn : m = n := by
    by_contra hne
    have : (s.start mode n).queued m = s.queued m := Function.update_of_ne hne ..
    rw [this, hqueued] at hm
    cases hm
  refine ⟨hmn, ?_⟩
  rw [hmn]
  exact Function.update_self ..

/-- A node that waits after another one left the queue waited before. -/
lemma Flow.queued_of_dequeue {σ : Type} {s : Flow σ} {m n : NodeId}
    (hm : (s.dequeue n).countTurn.queued m = true) : s.queued m = true := by
  change Function.update s.queued n false m = true at hm
  rw [Function.update_apply] at hm
  split at hm
  · cases hm
  · exact hm

namespace Network

variable {σ τ : Type} {N : Network} {D : Option NodeId} {n : NodeId}

/-! ### Calls -/

section Conclude

variable {side : Side} {r : Except ProcessError Verdict} {slot : PortId → Slot}
  {x : σ} {s : Flow σ}

/-- After its inputs were processed a node counts none of them, and after it
was asked for output those that still hold data. -/
lemma counted_conclude (hN : N.Proper) (q : PortId) :
    (N.conclude n side r slot x s).2.counted q =
      if q ∈ N.inputs n then
        decide (side = .output) && (s.counted q && N.holds slot q)
      else s.counted q := by
  cases side <;> cases r <;>
    simp [conclude, N.dropConsumed_eq hN, Flow.setPhase, Flow.countCall,
      Flow.setProcessor, reset]

/-- A call leaves a true count behind. -/
lemma ready_conclude (hN : N.Proper)
    (h : s.ready n = (N.inputs n).countP s.counted) :
    (N.conclude n side r slot x s).2.ready = Function.update s.ready n
      ((N.inputs n).countP (N.conclude n side r slot x s).2.counted) := by
  have hcount : (N.inputs n).countP (N.conclude n side r slot x s).2.counted =
      (N.inputs n).countP fun q =>
        decide (side = .output) && (s.counted q && N.holds slot q) :=
    List.countP_congr fun q hq => by rw [counted_conclude hN, if_pos hq]
  rw [hcount]
  cases side with
  | input =>
      cases r <;> simp [conclude, Flow.setPhase, Flow.countCall,
        Flow.setProcessor, reset]
  | output =>
      have hsplit := N.countP_holds (N.inputs n) s.counted slot
      cases r <;> simp [conclude, N.dropConsumed_eq hN, Flow.setPhase,
        Flow.countCall, Flow.setProcessor, h, hsplit]

lemma queued_conclude (hN : N.Proper) :
    (N.conclude n side r slot x s).2.queued = s.queued := by
  cases side <;> cases r <;>
    simp [conclude, N.dropConsumed_eq hN, Flow.setPhase, Flow.countCall,
      Flow.setProcessor, reset]

lemma phase_conclude_of_ne (hN : N.Proper) {m : NodeId} (hm : m ≠ n) :
    (N.conclude n side r slot x s).2.phase m = s.phase m := by
  cases side <;> cases r <;>
    simp [conclude, N.dropConsumed_eq hN, Flow.setPhase, Flow.countCall,
      Flow.setProcessor, reset, hm]

/-- Who waits after a call: the node that was called, in the phase that its verdict
leads to, and those that waited before. -/
lemma waits_report (hN : N.Proper) (hqueued : s.queued n = false) {m : NodeId}
    (hm : (report D n side (N.conclude n side r slot x s)).flow.queued m = true) :
    (m = n ∧ ∃ verdict, r = .ok verdict ∧
      (report D n side (N.conclude n side r slot x s)).flow.phase m =
        Node.phaseAfter verdict) ∨
    (m ≠ n ∧ s.queued m = true ∧
      (report D n side (N.conclude n side r slot x s)).flow.phase m = s.phase m) := by
  rw [phase_report]
  rcases eq_or_ne m n with rfl | hne
  · refine Or.inl ⟨rfl, ?_⟩
    cases r with
    | error cause =>
        have hm : (N.conclude m side (.error cause) slot x s).2.queued m = true := hm
        rw [queued_conclude hN, hqueued] at hm
        cases hm
    | ok verdict => exact ⟨verdict, rfl, Function.update_self ..⟩
  · rw [queued_report_of_ne _ hne, queued_conclude hN] at hm
    exact Or.inr ⟨hne, hm, phase_conclude_of_ne hN hne⟩

end Conclude

/-- A call changes links of other nodes only by putting data on them. -/
lemma Acts.outer {slot slot' : PortId → Slot} {x x' : Adapter τ} {side : Side}
    {r : Except ProcessError Verdict} (h : N.Acts n slot x side r slot' x')
    {q : PortId} (hq : q ∉ N.inputs n) :
    (slot' q).status = (slot q).status ∨ (slot' q).status = .haveData := by
  have hon : ∀ f, N.onInputs n f slot q = slot q :=
    fun f => if_neg fun hc => hq hc.1
  have hne : ∀ {p}, N.inputs n = [p] → q ≠ p := by
    rintro p hp rfl
    simp [hp] at hq
  have hupdate : ∀ {slot₁ : PortId → Slot} {p : PortId} {c : Slot},
      slot₁ q = slot q →
      (q = p → c.status = (slot q).status ∨ c.status = .haveData) →
      (Function.update slot₁ p c q).status = (slot q).status ∨
        (Function.update slot₁ p c q).status = .haveData := by
    intro slot₁ p c hsame hc
    rw [Function.update_apply]
    split
    · exact hc (by assumption)
    · exact Or.inl (by rw [hsame])
  cases h with
  | notSupported | mute | keep | deaf | idle | hold => exact Or.inl rfl
  | dry => exact hupdate rfl fun hq => Or.inl (by rw [hq])
  | produce => exact hupdate rfl fun _ => Or.inr rfl
  | consume hp | want hp =>
      rw [Function.update_of_ne (hne hp)]
      exact Or.inl rfl
  | request => exact Or.inl (by rw [hon])
  | spill => exact hupdate (hon _) fun hq => Or.inl (by rw [hq])
  | mix => exact hupdate (hon _) fun _ => Or.inr rfl

/-! ### True counts -/

/-- A node counts linked and required inputs that hold data or about which
nothing was said yet, and a node that waits to process its inputs counts as many
as it requires. -/
structure Counting (N : Network) (s : Flow σ) : Prop where
  ready : ∀ n, s.ready n = (N.inputs n).countP s.counted
  required : ∀ {n p}, p ∈ N.inputs n → s.counted p = true →
    (N.feeder p).isSome = true ∧ N.optional p = false
  offered : ∀ {n p}, p ∈ N.inputs n → s.counted p = true →
    (s.slot p).status = .haveData ∨ (s.slot p).status = .ok
  complete : ∀ {n}, s.queued n = true → s.phase n = .input →
    0 < N.required n ∧ s.ready n = N.required n

namespace Counting

variable {s : Flow σ}

/-- Fewer nodes may wait for a turn. -/
lemma of_le {t : Flow σ} (h : N.Counting s)
    (hqueued : ∀ m, t.queued m = true → s.queued m = true)
    (hphase : t.phase = s.phase) (hready : t.ready = s.ready)
    (hcounted : t.counted = s.counted) (hslot : t.slot = s.slot) :
    N.Counting t where
  ready m := by rw [hready, hcounted, h.ready]
  required hp hc := h.required hp (by rwa [hcounted] at hc)
  offered hp hc := by
    rw [hslot]
    exact h.offered hp (by rwa [hcounted] at hc)
  complete hm hφ := by
    rw [hready]
    exact h.complete (hqueued _ hm) (by rwa [hphase] at hφ)

/-- A node that leaves the queue keeps the counts true. -/
lemma dequeue (h : N.Counting s) (n : NodeId) :
    N.Counting (s.dequeue n).countTurn :=
  h.of_le (fun _ hm => Flow.queued_of_dequeue hm) rfl rfl rfl rfl

/-- A call keeps the counts true. -/
lemma call {s : Flow (Adapter τ)} (hN : N.Proper) (h : N.Counting s)
    {x x' : Adapter τ} {side : Side} {r : Except ProcessError Verdict}
    {slot : PortId → Slot} (hacts : N.Acts n s.slot x side r slot x')
    (hqueued : s.queued n = false) :
    N.Counting (report D n side (N.conclude n side r slot x' s)).flow := by
  have hother : ∀ m ≠ n, ∀ p ∈ N.inputs m, p ∉ N.inputs n :=
    fun m hm p hp hpn => hm (hN.owner_unique hp hpn)
  constructor
  · intro m
    rw [ready_report, counted_report, ready_conclude hN (h.ready n)]
    rcases eq_or_ne m n with rfl | hm
    · rw [Function.update_self]
    · rw [Function.update_of_ne hm, h.ready m]
      refine List.countP_congr fun p hp => ?_
      rw [counted_conclude hN, if_neg (hother m hm p hp)]
  · intro m p hp hc
    rw [counted_report, counted_conclude hN] at hc
    split at hc
    · simp only [Bool.and_eq_true] at hc
      exact h.required hp hc.2.1
    · exact h.required hp hc
  · intro m p hp hc
    rw [slot_report, slot_conclude hN]
    rw [counted_report, counted_conclude hN] at hc
    split at hc
    · simp only [Bool.and_eq_true, holds, Slot.hasData, decide_eq_true_eq] at hc
      exact Or.inl hc.2.2.2
    · rename_i hpn
      rcases hacts.outer hpn with hst | hst
      · rw [hst]
        exact h.offered hp hc
      · exact Or.inl hst
  · intro m hm hφ
    rcases waits_report hN hqueued hm with ⟨rfl, verdict, rfl, hphase⟩ |
      ⟨hne, hwaits, hphase⟩
    · rw [hphase] at hφ
      cases verdict <;> cases hφ
    · rw [ready_report, ready_conclude hN (h.ready n), Function.update_of_ne hne]
      exact h.complete hwaits (hphase.symm.trans hφ)

/-- A node that counts nothing any more keeps the counts true. -/
lemma reset (hN : N.Proper) (h : N.Counting s) (hqueued : s.queued n = false) :
    N.Counting (N.reset n s) := by
  have hcounted : ∀ p, (N.reset n s).counted p = true → s.counted p = true := by
    intro p hc
    simp only [Network.reset] at hc
    split at hc
    · cases hc
    · exact hc
  constructor
  · intro m
    rcases eq_or_ne m n with rfl | hm
    · simp only [Network.reset, Function.update_self]
      rw [eq_comm, List.countP_eq_zero]
      exact fun p hp => by simp [hp]
    · simp only [Network.reset, Function.update_of_ne hm, h.ready m]
      exact (countP_inputs_of_ne hN hm _ _).symm
  · exact fun hp hc => h.required hp (hcounted _ hc)
  · exact fun hp hc => h.offered hp (hcounted _ hc)
  · exact fun {m} => Completed.reset (fun _ => h.complete) hqueued m

/-- A check keeps the counts true. -/
lemma checkIn (hN : N.Proper) (h : N.Counting s) (hqueued : s.queued n = false) :
    N.Counting (N.checkIn D n s) where
  ready m := by
    rw [checkIn_eq]
    dsimp only
    rcases eq_or_ne m n with rfl | hm
    · rw [Function.update_self]
      exact List.countP_congr fun p hp => by rw [if_pos hp]
    · rw [Function.update_of_ne hm, h.ready m]
      exact (countP_inputs_of_ne hN hm _ _).symm
  required hp hc := by
    rw [checkIn_eq] at hc
    simp only at hc
    split at hc
    · simp only [isUntouched, Bool.and_eq_true, decide_eq_true_eq,
        Bool.not_eq_true'] at hc
      exact ⟨hc.1.1, hc.2⟩
    · exact h.required hp hc
  offered hp hc := by
    rw [checkIn_eq] at hc ⊢
    simp only at hc
    split at hc
    · simp only [isUntouched, Bool.and_eq_true, decide_eq_true_eq] at hc
      exact Or.inr hc.1.2
    · exact h.offered hp hc
  complete {m} := Completed.checkIn (fun _ => h.complete) hqueued m

/-- An announcement keeps the counts true. -/
lemma announce (hN : N.Proper) (h : N.Counting s) {c : NodeId} {p : PortId}
    (hp : p ∈ N.inputs c) (hf : (N.feeder p).isSome = true) :
    N.Counting (N.announce s p) where
  ready m := by rw [N.ready_announce hN hp, N.countP_announce hN hp, h.ready m]
  required hq hc := by
    rcases (N.counted_announce hN hp).mp hc with hc | ⟨rfl, hnew⟩
    · exact h.required hq hc
    · exact ⟨hf, (isNew_eq_true.mp hnew).1⟩
  offered hq hc := by
    rw [N.slot_announce hN hp]
    rcases (N.counted_announce hN hp).mp hc with hc | ⟨rfl, hnew⟩
    · exact h.offered hq hc
    · exact Or.inl (by simpa [Flow.full, Slot.hasData] using
        (isNew_eq_true.mp hnew).2.2)
  complete {m} := Completed.announce hN (fun _ => h.complete) hp m

/-- Announcing the outputs of a node keeps the counts true. -/
lemma checkOut (hN : N.Proper) (h : N.Counting s) (n : NodeId) :
    N.Counting (N.checkOut n s) :=
  checkOut_induction hN h fun _ _ _ ht hp h => h.announce hN hp
    (by rw [(hN.feeder hp n).mpr ht]; rfl)

/-- A turn keeps the counts true. -/
lemma serves {s : Flow (Adapter τ)} {v : FlowTurn (Adapter τ)} (hN : N.Proper)
    (h : N.Counting s) (hv : N.Serves D n s v) : N.Counting v.flow := by
  have hleft : (s.dequeue n).countTurn.queued n = false :=
    Function.update_self ..
  cases hv with
  | call _ _ hacts => exact (h.dequeue n).call hN hacts hleft
  | stuck => exact (h.dequeue n).reset hN hleft
  | check => exact ((h.dequeue n).checkIn hN hleft).checkOut hN n
  | announce => exact (h.dequeue n).checkOut hN n

end Counting

end Network

namespace Description

variable {τ : Type} {d : Description} {N : Network} {s : Flow (Adapter τ)}

/-- Nothing is counted in an untouched flow. -/
lemma Untouched.counting (h : d.Untouched N s) : N.Counting s where
  ready n := by
    rw [h.ready, eq_comm, List.countP_eq_zero]
    intro p _
    simp [h.counted p]
  required _ hc := by simp [h.counted] at hc
  offered _ hc := by simp [h.counted] at hc
  complete hn _ := by simp [h.queued] at hn

end Description

namespace Network.Counting

variable {τ : Type} {d : Description} {N : Network} {s : Flow (Adapter τ)}

/-- The driver keeps the counts true when it starts. -/
lemma start (h : N.Counting s) (hqueued : ∀ n, s.queued n = false) (mode : Mode)
    (n : NodeId) : N.Counting (s.start mode n) where
  ready := h.ready
  required := h.required
  offered := h.offered
  complete {m} hm hφ := by
    obtain ⟨-, hphase⟩ := Flow.waits_start hqueued hm
    rw [hphase] at hφ
    cases mode <;> cases hφ

/-- Every activation keeps the counts true. -/
lemma ends [Processor τ] (hN : d.Realized N) (hstaffed : d.Staffed s)
    (h : N.Counting s) (hqueued : ∀ n, s.queued n = false) {mode : Mode}
    {n : NodeId} {budget : Nat} {r : Except ActivationError Unit}
    {calls : List Callback} {t : Flow (Adapter τ)}
    (ht : N.Ends (some n) (s.start mode n) budget r calls t) :
    N.Counting t.clear := by
  have hstart : d.Staffed (s.start mode n) ∧ N.Counting (s.start mode n) :=
    ⟨⟨hstaffed.kind, hstaffed.outside⟩, h.start hqueued mode n⟩
  have hend : d.Staffed t ∧ N.Counting t := by
    refine ht.invariant (P := fun u => d.Staffed u ∧ N.Counting u) hstart
      fun u m _ hu => ⟨hu.1.serve hN (some n) m, ?_⟩
    rcases hu.1.serves hN (some n) m with hserves | hidle
    · exact hu.2.serves hN.proper hserves
    · rw [hidle]
      exact (hu.2.dequeue m).of_le (fun _ hm => hm) rfl rfl rfl rfl
  exact hend.2.of_le (fun _ hm => by cases hm) rfl rfl rfl rfl

end Network.Counting

end MediaGraph

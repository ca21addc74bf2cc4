/-
Rounds of counting, for processors of any kind.

* `Network.Tallied`: no node counts more inputs than are marked as counted, the
  marked inputs are linked and required, and a node that waits to process its
  inputs counts as many as it requires;
* `Tallied.call`, `Tallied.checkIn`, `Tallied.checkOut`: every part of a turn
  keeps that;
* `Tallied.serve`, `Tallied.ends`: so does a turn, and a whole activation.
-/
import MediaGraph.Proofs.History
import MediaGraph.Proofs.Network.Steps

namespace MediaGraph

namespace Network

variable {σ : Type} {N : Network} {D : Option NodeId} {n : NodeId}

/-! ### What a processor can change -/

/-- Writing the ports of a node changes slots only. -/
lemma exists_writeView_eq (N : Network) (n : NodeId) (v : PortView)
    (s : Flow σ) : ∃ slot, N.writeView n v s = { s with slot } := by
  have key : ∀ (links : List (Option PortId)) (slots : List (Option Slot))
      (s : Flow σ), ∃ slot, s.writeSlots links slots = { s with slot } := by
    intro links slots
    simp only [Flow.writeSlots]
    generalize links.zip slots = l
    induction l with
    | nil => exact fun s => ⟨s.slot, rfl⟩
    | cons x l ih =>
        intro s
        obtain ⟨slot, h⟩ := ih (s.writeSlot x)
        refine ⟨slot, ?_⟩
        rw [List.foldl_cons, h]
        rcases x with ⟨_ | p, _ | c⟩ <;> rfl
  obtain ⟨slot₁, h₁⟩ := key ((N.inputs n).map N.linked?) (v.inputs.map (·.slot)) s
  obtain ⟨slot₂, h₂⟩ := key (N.outputs n) v.outputs { s with slot := slot₁ }
  exact ⟨slot₂, by rw [writeView, h₁, h₂]⟩

/-- A call puts its own node into the phase that its verdict leads to, if it goes
well, and changes neither another phase nor the queue. -/
lemma queued_phase_call [Processor σ] (hN : N.Proper) (n : NodeId) (x : σ)
    (side : Side) (s : Flow σ) :
    (N.call n x side s).2.queued = s.queued ∧
      (N.call n x side s).2.phase = match (N.call n x side s).1 with
        | .ok verdict => Function.update s.phase n (Node.phaseAfter verdict)
        | .error _ => s.phase := by
  have hwrite : ∀ (v : PortView) (t : Flow σ), (N.writeView n v t).queued = t.queued ∧
      (N.writeView n v t).phase = t.phase := by
    intro v t
    obtain ⟨slot, ht⟩ := N.exists_writeView_eq n v t
    rw [ht]
    exact ⟨rfl, rfl⟩
  cases side with
  | input =>
      simp only [call]
      split <;> simp [Flow.setPhase, Flow.countCall, Flow.setProcessor, reset, hwrite]
  | output =>
      simp only [call]
      split <;> simp [Flow.setPhase, Flow.countCall, Flow.setProcessor, hwrite,
        N.dropConsumed_eq hN]

/-! ### Tallies -/

/-- No node counts more inputs than are marked as counted, the marked inputs are
linked and required, and a node that waits to process its inputs counts as many
as it requires. -/
structure Tallied (N : Network) (s : Flow σ) : Prop where
  ready : ∀ n, s.ready n ≤ (N.inputs n).countP s.counted
  counted : ∀ {p}, s.counted p = true → (∃ n, p ∈ N.inputs n) ∧
    (N.feeder p).isSome = true ∧ N.optional p = false
  complete : ∀ {n}, s.queued n = true → s.phase n = .input →
    0 < N.required n ∧ s.ready n = N.required n

namespace Tallied

variable {s t : Flow σ}

/-- Nothing about the counts changes, and only nodes that are not about to
process their inputs start to wait. -/
lemma congr (h : N.Tallied s) (hready : t.ready = s.ready)
    (hcounted : t.counted = s.counted)
    (hwaits : ∀ m, t.queued m = true → t.phase m = .input →
      s.queued m = true ∧ s.phase m = .input) : N.Tallied t where
  ready m := by
    rw [hready, hcounted]
    exact h.ready m
  counted hc := h.counted (by rwa [hcounted] at hc)
  complete hm hφ := by
    rw [hready]
    exact h.complete (hwaits _ hm hφ).1 (hwaits _ hm hφ).2

/-- A node leaves the queue. -/
lemma dequeue (h : N.Tallied s) (n : NodeId) : N.Tallied (s.dequeue n) := by
  refine h.congr rfl rfl fun m hm hφ => ⟨?_, hφ⟩
  simp only [Flow.dequeue, Function.update_apply] at hm
  split at hm
  · cases hm
  · exact hm

/-- A node that does not wait is put into a phase. -/
lemma setPhase (h : N.Tallied s) (hn : s.queued n = false) (φ : Phase) :
    N.Tallied (s.setPhase n φ) := by
  refine h.congr rfl rfl fun m hm hφ => ⟨hm, ?_⟩
  have hmn : m ≠ n := by
    rintro rfl
    exact Bool.false_ne_true (hn.symm.trans hm)
  simpa [Flow.setPhase, hmn] using hφ

/-- A node waits in another phase than `input`. -/
lemma enqueue (h : N.Tallied s) (hφ : s.phase n ≠ .input) :
    N.Tallied (s.enqueue n) := by
  refine h.congr rfl rfl fun m hm hφ' => ⟨?_, hφ'⟩
  have hmn : m ≠ n := by
    rintro rfl
    exact hφ hφ'
  simpa [Flow.enqueue, hmn] using hm

/-- A node starts a new round. -/
lemma reset (hN : N.Proper) (h : N.Tallied s) (hn : s.queued n = false) :
    N.Tallied (N.reset n s) where
  ready m := by
    rcases eq_or_ne m n with rfl | hm
    · simp [Network.reset]
    · simp only [Network.reset, Function.update_of_ne hm]
      exact (h.ready m).trans_eq (countP_inputs_of_ne hN hm _ _).symm
  counted {p} hc := by
    simp only [Network.reset] at hc
    split at hc
    · cases hc
    · exact h.counted hc
  complete {m} := Completed.reset (fun _ => h.complete) hn m

/-- The inputs of a node that were consumed are not counted any more. -/
lemma dropConsumed (hN : N.Proper) (h : N.Tallied s) (hn : s.queued n = false) :
    N.Tallied (N.dropConsumed n s) := by
  rw [N.dropConsumed_eq hN]
  constructor
  · intro m
    rcases eq_or_ne m n with rfl | hm
    · have hsplit := N.countP_holds (N.inputs m) s.counted s.slot
      have hleft : ((N.inputs m).countP fun q => if q ∈ N.inputs m then
          s.counted q && N.holds s.slot q else s.counted q) =
          (N.inputs m).countP fun q => s.counted q && N.holds s.slot q :=
        List.countP_congr fun q hq => by rw [if_pos hq]
      have hle := h.ready m
      simp only [Function.update_self, hleft]
      omega
    · simp only [Function.update_of_ne hm]
      exact (h.ready m).trans_eq (countP_inputs_of_ne hN hm _ _).symm
  · intro p hc
    simp only at hc
    split at hc
    · exact h.counted (Bool.and_eq_true_iff.mp hc).1
    · exact h.counted hc
  · intro m hm hφ
    have hmn : m ≠ n := by
      rintro rfl
      exact Bool.false_ne_true (hn.symm.trans hm)
    simp only [Function.update_of_ne hmn]
    exact h.complete hm hφ

/-- The inputs of a node are counted anew. -/
lemma checkIn (hN : N.Proper) (h : N.Tallied s) (hn : s.queued n = false) :
    N.Tallied (N.checkIn D n s) where
  ready m := by
    rw [checkIn_eq]
    dsimp only
    rcases eq_or_ne m n with rfl | hm
    · rw [Function.update_self]
      exact Nat.le_of_eq (List.countP_congr fun p hp => by rw [if_pos hp])
    · rw [Function.update_of_ne hm]
      exact (h.ready m).trans_eq (countP_inputs_of_ne hN hm _ _).symm
  counted {p} hc := by
    rw [checkIn_eq] at hc
    simp only at hc
    split at hc
    · rename_i hp
      simp only [isUntouched, Bool.and_eq_true, Bool.not_eq_true'] at hc
      exact ⟨⟨n, hp⟩, hc.1.1, hc.2⟩
    · exact h.counted hc
  complete {m} := Completed.checkIn (fun _ => h.complete) hn m

/-- An input of `c` is announced: `c` waits to process its inputs exactly if it
counts as many as it requires. -/
lemma announce (hN : N.Proper) (h : N.Tallied s) {c : NodeId} {p : PortId}
    (hp : p ∈ N.inputs c) (hf : (N.feeder p).isSome = true) :
    N.Tallied (N.announce s p) where
  ready m := by
    rw [N.ready_announce hN hp, N.countP_announce hN hp]
    exact Nat.add_le_add_right (h.ready m) _
  counted hc := by
    rcases (N.counted_announce hN hp).mp hc with hc | ⟨rfl, hnew⟩
    · exact h.counted hc
    · exact ⟨⟨c, hp⟩, hf, (isNew_eq_true.mp hnew).1⟩
  complete {m} := Completed.announce hN (fun _ => h.complete) hp m

/-- The outputs of a node are announced. -/
lemma checkOut (hN : N.Proper) (h : N.Tallied s) (n : NodeId) :
    N.Tallied (N.checkOut n s) :=
  checkOut_induction hN h fun _ _ _ ht hp h => h.announce hN hp
    (by rw [(hN.feeder hp n).mpr ht]; rfl)

/-! ### Turns -/

variable [Processor σ]

/-- A processor is called. -/
lemma call (hN : N.Proper) (h : N.Tallied s) (hn : s.queued n = false) (x : σ)
    (side : Side) : N.Tallied (report D n side (N.call n x side s)).flow := by
  -- what is left to do after a call that went well
  have hdone : ∀ {t : Flow σ} (verdict : Verdict), N.Tallied t →
      t.queued n = false → N.Tallied (report D n side
        (.ok verdict, t.setPhase n (Node.phaseAfter verdict))).flow := by
    intro t verdict ht htn
    have hphase := ht.setPhase htn (Node.phaseAfter verdict)
    simp only [report]
    split
    · exact hphase
    · refine hphase.enqueue ?_
      simp only [Flow.setPhase, Function.update_self]
      cases verdict <;> simp [Node.phaseAfter]
  have hwrite : ∀ {t : Flow σ} (y : σ) (v : PortView), N.Tallied t →
      t.queued n = false →
      N.Tallied ((N.writeView n v (t.setProcessor n y)).countCall side) ∧
        ((N.writeView n v (t.setProcessor n y)).countCall side).queued n =
          false := by
    intro t y v ht htn
    obtain ⟨slot, hslot⟩ := N.exists_writeView_eq n v (t.setProcessor n y)
    rw [hslot]
    exact ⟨ht.congr rfl rfl fun m hm hφ => ⟨hm, hφ⟩, htn⟩
  cases side with
  | input =>
      have hcalled := fun y v => hwrite y v (h.reset hN hn) hn
      simp only [Network.call]
      split
      · exact hdone _ (hcalled _ _).1 (hcalled _ _).2
      · exact (hcalled _ _).1
  | output =>
      have hcalled : ∀ (y : σ) (v : PortView),
          N.Tallied (N.dropConsumed n
            ((N.writeView n v (s.setProcessor n y)).countCall .output)) ∧
          (N.dropConsumed n ((N.writeView n v (s.setProcessor n y)).countCall
            .output)).queued n = false := by
        intro y v
        obtain ⟨hw, hq⟩ := hwrite y v h hn
        refine ⟨hw.dropConsumed hN hq, ?_⟩
        rw [N.dropConsumed_eq hN]
        exact hq
      simp only [Network.call]
      split
      · exact hdone _ (hcalled _ _).1 (hcalled _ _).2
      · exact (hcalled _ _).1

/-- A turn is taken. -/
theorem serve (hN : N.Proper) (h : N.Tallied s) (n : NodeId) :
    N.Tallied (N.serve D n s).flow := by
  have hleft : N.Tallied (s.dequeue n).countTurn :=
    (h.dequeue n).congr rfl rfl fun m hm hφ => ⟨hm, hφ⟩
  have hn : (s.dequeue n).countTurn.queued n = false := Function.update_self ..
  unfold Network.serve
  split
  · exact h.dequeue n
  · unfold serveNode
    split
    · exact hleft.call hN hn _ .input
    · exact hleft.call hN hn _ .output
    · split
      · exact hleft.reset hN hn
      · exact (hleft.checkIn hN hn).checkOut hN n
    · exact hleft.checkOut hN n

omit [Processor σ] in
/-- The driver waits for its first turn. -/
lemma start (h : N.Tallied s) (hidle : ∀ m, s.queued m = false) (mode : Mode)
    (n : NodeId) : N.Tallied (s.start mode n) := by
  have hphase := h.setPhase (hidle n) mode.phase
  have hstats : N.Tallied { s.setPhase n mode.phase with stats := {} } :=
    hphase.congr rfl rfl fun m hm hφ => ⟨hm, hφ⟩
  refine hstats.enqueue ?_
  simp only [Flow.setPhase, Function.update_self]
  cases mode <;> simp [Mode.phase]

omit [Processor σ] in
/-- Nobody waits any more. -/
lemma clear (h : N.Tallied s) : N.Tallied s.clear :=
  h.congr rfl rfl fun _ hm => by cases hm

/-- An activation ends. -/
lemma ends (hN : N.Proper) (h : N.Tallied s) (hidle : ∀ m, s.queued m = false)
    {mode : Mode} {budget : Nat} {r : Except ActivationError Unit}
    {calls : List Callback}
    (ht : N.Ends (some n) (s.start mode n) budget r calls t) :
    N.Tallied t.clear :=
  (ht.invariant (h.start hidle mode n) fun _ m _ hu => hu.serve hN m).clear

end Tallied

end Network

end MediaGraph

/-
The turns of adapters.

* `Network.Serves`: what the turn of a node with an adapter can be, with
  everything that it does;
* `Network.serves`: the turn of a node with an adapter that suits it is one of
  these;
* `Network.Called`, `Network.Checked`, `Network.Announced`: what a call that
  goes well, a check, and an announcement of new data leave behind;
* `Serves.data`: a turn changes slots and adapters only through a call;
* `Serves.phase_output`: a node comes into the phase in which it is asked for
  output only through a node that it feeds.
-/
import MediaGraph.Proofs.Network.Phases

namespace MediaGraph

/-- The phase in which a side of a processor is called. -/
def Side.phase : Side → Phase
  | .input => .input
  | .output => .output

namespace Network

variable {σ τ : Type} {N : Network} {D : Option NodeId} {n : NodeId}

/-! ### What a turn leaves alone -/

/-- What holds after each announcement of an output holds after all of them. -/
lemma checkOut_induction (hN : N.Proper) {P : Flow σ → Prop} {s : Flow σ}
    (h : P s) (hstep : ∀ s c p, p ∈ N.targets n → p ∈ N.inputs c → P s →
      P (N.announce s p)) :
    P (N.checkOut n s) := by
  rw [checkOut]
  have key : ∀ l : List PortId, (∀ p ∈ l, p ∈ N.targets n) → ∀ s, P s →
      P (l.foldl N.announce s) := by
    intro l
    induction l with
    | nil => exact fun _ _ h => h
    | cons p l ih =>
        intro hl s h
        obtain ⟨c, hc⟩ := hN.target (hl p (by simp))
        exact ih (fun q hq => hl q (by simp [hq])) _
          (hstep s c p (hl p (by simp)) hc h)
  exact key _ (fun _ h => h) s h

lemma slot_checkOut (hN : N.Proper) (s : Flow σ) :
    (N.checkOut n s).slot = s.slot :=
  checkOut_induction (P := fun t => t.slot = s.slot) hN rfl
    fun t c p _ hp ht => by rw [N.announce_eq hN hp, ht]

lemma processor_checkOut (hN : N.Proper) (s : Flow σ) :
    (N.checkOut n s).processor = s.processor :=
  checkOut_induction (P := fun t => t.processor = s.processor) hN rfl
    fun t c p _ hp ht => by rw [N.announce_eq hN hp, ht]

lemma stats_checkOut (hN : N.Proper) (s : Flow σ) :
    (N.checkOut n s).stats = s.stats :=
  checkOut_induction (P := fun t => t.stats = s.stats) hN rfl
    fun t c p _ hp ht => by rw [N.announce_eq hN hp, ht]

/-- An announcement puts no node into the phase in which it is asked for
output. -/
lemma phase_checkOut (hN : N.Proper) {s : Flow σ} {m : NodeId}
    (h : (N.checkOut n s).phase m = .output) : s.phase m = .output := by
  refine checkOut_induction (P := fun t => t.phase m = .output →
    s.phase m = .output) hN (fun h => h) (fun t c p _ hp ht h => ht ?_) h
  rw [N.announce_eq hN hp] at h
  simp only at h
  split at h
  · rw [Function.update_apply] at h
    split at h
    · cases h
    · exact h
  · exact h

/-! ### Turns -/

/-- What the turn of a node with an adapter can be. -/
inductive Serves (N : Network) (D : Option NodeId) (n : NodeId)
    (s : Flow (Adapter τ)) : FlowTurn (Adapter τ) → Prop
  | call {x x' : Adapter τ} {side : Side} {r : Except ProcessError Verdict}
      {slot : PortId → Slot} :
      s.processor n = some x → s.phase n = side.phase →
      N.Acts n s.slot x side r slot x' →
      Serves N D n s (report D n side
        (N.conclude n side r slot x' (s.dequeue n).countTurn))
  | stuck :
      s.phase n = .checkInput → N.demandsNothing n = true →
      Serves N D n s {
        flow := N.reset n (s.dequeue n).countTurn
        failure := some (.nothingRequired n) }
  | check :
      s.phase n = .checkInput → N.demandsNothing n = false →
      Serves N D n s {
        flow := N.checkOut n (N.checkIn D n (s.dequeue n).countTurn) }
  | announce :
      s.phase n = .checkOutput →
      Serves N D n s { flow := N.checkOut n (s.dequeue n).countTurn }

/-- The turn of a node with an adapter that suits it. -/
theorem serves [Processor τ] (hN : N.Proper) (D : Option NodeId)
    {s : Flow (Adapter τ)} {x : Adapter τ} (hx : s.processor n = some x)
    (hsuits : N.Suits n x) : N.Serves D n s (N.serve D n s) := by
  have hcall : ∀ side : Side, s.phase n = side.phase → N.Serves D n s
      (report D n side (N.call n x side (s.dequeue n).countTurn)) := by
    intro side hside
    obtain ⟨r, slot, x', hacts, hc⟩ :=
      N.acts_of_call (s := (s.dequeue n).countTurn) hN hsuits side
    rw [hc]
    exact .call hx hside hacts
  rw [serve, hx]
  simp only [serveNode]
  split
  · rename_i hφ
    exact hcall .input hφ
  · rename_i hφ
    exact hcall .output hφ
  · rename_i hφ
    split
    · rename_i hd
      exact .stuck hφ hd
    · rename_i hd
      exact .check hφ (by simpa using hd)
  · rename_i hφ
    exact .announce hφ

/-! ### What a call concludes with -/

section Conclude

variable {side : Side} {r : Except ProcessError Verdict} {slot : PortId → Slot}
  {x : σ} {s : Flow σ}

/-- After a call only the queue depends on how it went. -/
lemma flow_report (r : Except ProcessError Verdict × Flow σ) :
    (report D n side r).flow =
      { r.2 with queued := (report D n side r).flow.queued } := by
  rcases r with ⟨_ | _, t⟩
  · rfl
  · simp only [report]
    split <;> rfl

lemma slot_report (r : Except ProcessError Verdict × Flow σ) :
    (report D n side r).flow.slot = r.2.slot := by
  rw [flow_report]

lemma processor_report (r : Except ProcessError Verdict × Flow σ) :
    (report D n side r).flow.processor = r.2.processor := by
  rw [flow_report]

lemma phase_report (r : Except ProcessError Verdict × Flow σ) :
    (report D n side r).flow.phase = r.2.phase := by
  rw [flow_report]

lemma stats_report (r : Except ProcessError Verdict × Flow σ) :
    (report D n side r).flow.stats = r.2.stats := by
  rw [flow_report]

lemma counted_report (r : Except ProcessError Verdict × Flow σ) :
    (report D n side r).flow.counted = r.2.counted := by
  rw [flow_report]

lemma ready_report (r : Except ProcessError Verdict × Flow σ) :
    (report D n side r).flow.ready = r.2.ready := by
  rw [flow_report]

lemma queued_report_of_ne (r : Except ProcessError Verdict × Flow σ) {m : NodeId}
    (hm : m ≠ n) : (report D n side r).flow.queued m = r.2.queued m := by
  rcases r with ⟨_ | _, t⟩
  · rfl
  · simp only [report]
    split
    · rfl
    · simp [Flow.enqueue, hm]

/-- A node whose call went well waits again, unless it is the driver. -/
lemma queued_report_self {verdict : Verdict} {t : Flow σ} (hD : D ≠ some n) :
    (report D n side (.ok verdict, t)).flow.queued n = true := by
  rw [report, if_neg fun h => hD h.2]
  exact Function.update_self ..

lemma stats_conclude (hN : N.Proper) :
    (N.conclude n side r slot x s).2.stats = (s.countCall side).stats := by
  cases side <;> cases r <;>
    simp [conclude, N.dropConsumed_eq hN, Flow.setPhase, Flow.countCall,
      Flow.setProcessor, reset]

lemma slot_conclude (hN : N.Proper) :
    (N.conclude n side r slot x s).2.slot = slot := by
  cases side <;> cases r <;>
    simp [conclude, N.dropConsumed_eq hN, Flow.setPhase, Flow.countCall]

lemma processor_conclude (hN : N.Proper) :
    (N.conclude n side r slot x s).2.processor =
      Function.update s.processor n (some x) := by
  cases side <;> cases r <;>
    simp [conclude, N.dropConsumed_eq hN, Flow.setPhase, Flow.countCall,
      Flow.setProcessor, reset]

/-- A node that was called is not in the phase in which it is asked for
output, unless the call failed. -/
lemma phase_conclude (hN : N.Proper) {m : NodeId}
    (h : (N.conclude n side r slot x s).2.phase m = .output) :
    s.phase m = .output := by
  have hphase : ∀ v, Node.phaseAfter v ≠ .output := by
    intro v
    cases v <;> simp [Node.phaseAfter]
  cases side <;> cases r <;>
    simp only [conclude, N.dropConsumed_eq hN, Flow.setPhase, Flow.countCall,
      Flow.setProcessor, reset, Function.update_apply] at h
  all_goals first
    | exact h
    | (split at h
       · exact absurd h (hphase _)
       · exact h)

end Conclude

/-- What the turn of a node leaves behind whose call went well and left the
slots `slot` and the processor `x`. -/
structure Called (N : Network) (D : Option NodeId) (n : NodeId) (side : Side)
    (verdict : Verdict) (slot : PortId → Slot) (x : σ) (s : Flow σ)
    (v : FlowTurn σ) : Prop where
  callback : v.callback = some ⟨n, side, .ok verdict⟩
  failure : v.failure = none
  queued : v.flow.queued =
    Function.update s.queued n (!decide (side = .input ∧ D = some n))
  phase : v.flow.phase = Function.update s.phase n (Node.phaseAfter verdict)
  slot : v.flow.slot = slot
  processor : v.flow.processor = Function.update s.processor n (some x)
  ready : ∀ m ≠ n, v.flow.ready m = s.ready m
  counted : ∀ m ≠ n, ∀ p ∈ N.inputs m, v.flow.counted p = s.counted p

/-- What a call that goes well does. -/
lemma called (hN : N.Proper) (D : Option NodeId) (n : NodeId) (side : Side)
    (verdict : Verdict) (slot : PortId → Slot) (x : σ) (s : Flow σ) :
    N.Called D n side verdict slot x s (report D n side
      (N.conclude n side (.ok verdict) slot x (s.dequeue n).countTurn)) := by
  have hother : ∀ m ≠ n, ∀ p ∈ N.inputs m, p ∉ N.inputs n :=
    fun m hm p hp hpn => hm (hN.owner_unique hp hpn)
  cases side with
  | output =>
      refine ⟨rfl, rfl, ?_, ?_, ?_, ?_, fun m hm => ?_, fun m hm p hp => ?_⟩ <;>
        simp only [report, conclude, N.dropConsumed_eq hN, reduceCtorEq,
          false_and, if_false, decide_false, Bool.not_false]
      · simp [Flow.enqueue, Flow.setPhase, Flow.countCall, Flow.setProcessor,
          Flow.countTurn, Flow.dequeue]
      · rfl
      · rfl
      · rfl
      · simp [Flow.enqueue, Flow.setPhase, Flow.countCall, Flow.setProcessor,
          Flow.countTurn, Flow.dequeue, hm]
      · simp [Flow.enqueue, Flow.setPhase, Flow.countCall, Flow.setProcessor,
          Flow.countTurn, Flow.dequeue, hother m hm p hp]
  | input =>
      by_cases hD : D = some n
      · refine ⟨rfl, rfl, ?_, ?_, ?_, ?_, fun m hm => ?_, fun m hm p hp => ?_⟩ <;>
          simp only [report, conclude, hD, and_self, if_true, decide_true,
            Bool.not_true]
        · rfl
        · rfl
        · rfl
        · rfl
        · simp [Flow.setPhase, Flow.countCall, Flow.setProcessor, reset,
            Flow.countTurn, Flow.dequeue, hm]
        · simp [Flow.setPhase, Flow.countCall, Flow.setProcessor, reset,
            Flow.countTurn, Flow.dequeue, hother m hm p hp]
      · refine ⟨rfl, rfl, ?_, ?_, ?_, ?_, fun m hm => ?_, fun m hm p hp => ?_⟩ <;>
          simp only [report, conclude, hD, and_false, if_false, decide_false,
            Bool.not_false]
        · simp [Flow.enqueue, Flow.setPhase, Flow.countCall, Flow.setProcessor,
            reset, Flow.countTurn, Flow.dequeue]
        · rfl
        · rfl
        · rfl
        · simp [Flow.enqueue, Flow.setPhase, Flow.countCall, Flow.setProcessor,
            reset, Flow.countTurn, Flow.dequeue, hm]
        · simp [Flow.enqueue, Flow.setPhase, Flow.countCall, Flow.setProcessor,
            reset, Flow.countTurn, Flow.dequeue, hother m hm p hp]

/-- What a check of a node leaves behind before its outputs are announced. -/
structure Checked (N : Network) (D : Option NodeId) (n : NodeId)
    (s u : Flow σ) : Prop where
  queued : ∀ m, u.queued m =
    (Function.update s.queued n false m || N.asksIn D s.slot n m)
  phase : ∀ m, u.phase m =
    if N.asksIn D s.slot n m then .output else s.phase m
  slot : u.slot = s.slot
  processor : u.processor = s.processor
  ready_self : u.ready n = (N.inputs n).countP (N.isUntouched s.slot)
  ready : ∀ m ≠ n, u.ready m = s.ready m
  counted_self : ∀ p ∈ N.inputs n, u.counted p = N.isUntouched s.slot p
  counted : ∀ m ≠ n, ∀ p ∈ N.inputs m, u.counted p = s.counted p

/-- What a check does. -/
lemma checked (hN : N.Proper) (D : Option NodeId) (n : NodeId) (s : Flow σ) :
    N.Checked D n s (N.checkIn D n (s.dequeue n).countTurn) := by
  rw [checkIn_eq]
  refine ⟨fun m => rfl, fun m => rfl, rfl, rfl, Function.update_self ..,
    fun m hm => Function.update_of_ne hm .., fun p hp => if_pos hp,
    fun m hm p hp => if_neg fun hpn => hm (hN.owner_unique hp hpn)⟩

/-- What an announcement of `n` leaves behind that finds new data in the input
`p` of `c` and completes the count of `c` or not. -/
structure Announced (n c : NodeId) (p : PortId) (full : Bool) (s u : Flow σ) :
    Prop where
  queued : u.queued =
    Function.update (Function.update s.queued n false) c full
  phase : u.phase = if full then Function.update s.phase c .input else s.phase
  slot : u.slot = s.slot
  processor : u.processor = s.processor
  ready_self : u.ready c = s.ready c + 1
  ready : ∀ m ≠ c, u.ready m = s.ready m
  counted : u.counted = Function.update s.counted p true

/-- What an announcement of new data does. -/
lemma announced (hN : N.Proper) (n : NodeId) {c : NodeId} {p : PortId}
    (hp : p ∈ N.inputs c) {s : Flow σ} (hnew : N.isNew s p = true) :
    Announced n c p (N.completes s c p) s
      (N.announce (s.dequeue n).countTurn p) := by
  have hnew' : N.isNew (s.dequeue n).countTurn p = true := hnew
  rw [N.announce_eq hN hp, hnew', Bool.or_true]
  refine ⟨rfl, rfl, rfl, rfl, ?_, fun m hm => Function.update_of_ne hm .., rfl⟩
  refine (Function.update_self ..).trans ?_
  rw [readyAfter, hnew', if_pos rfl]
  rfl

namespace Serves

variable {s : Flow (Adapter τ)} {v : FlowTurn (Adapter τ)}

/-- The turn of a node whose side is called. -/
lemma exists_acts (h : N.Serves D n s v) (side : Side)
    (hφ : s.phase n = side.phase) :
    ∃ x r slot x', s.processor n = some x ∧ N.Acts n s.slot x side r slot x' ∧
      v = report D n side
        (N.conclude n side r slot x' (s.dequeue n).countTurn) := by
  cases h with
  | @call x x' side' r slot hx hφ' hacts =>
      obtain rfl : side = side' := by
        rw [hφ] at hφ'
        cases side <;> cases side' <;> first | rfl | cases hφ'
      exact ⟨x, r, slot, x', hx, hacts, rfl⟩
  | stuck hφ' => cases side <;> simp [hφ', Side.phase] at hφ
  | check hφ' => cases side <;> simp [hφ', Side.phase] at hφ
  | announce hφ' => cases side <;> simp [hφ', Side.phase] at hφ

/-- The turn of a node whose inputs are checked. -/
lemma eq_check (h : N.Serves D n s v) (hφ : s.phase n = .checkInput)
    (hd : N.demandsNothing n = false) :
    v = { flow := N.checkOut n (N.checkIn D n (s.dequeue n).countTurn) } := by
  cases h with
  | @call x x' side r slot hx hφ' =>
      cases side <;> simp [hφ, Side.phase] at hφ'
  | stuck _ hd' => simp [hd] at hd'
  | check => rfl
  | announce hφ' => simp [hφ] at hφ'

/-- The turn of a node whose outputs are announced. -/
lemma eq_announce (h : N.Serves D n s v) (hφ : s.phase n = .checkOutput) :
    v = { flow := N.checkOut n (s.dequeue n).countTurn } := by
  cases h with
  | @call x x' side r slot hx hφ' =>
      cases side <;> simp [hφ, Side.phase] at hφ'
  | stuck hφ' => simp [hφ] at hφ'
  | check hφ' => simp [hφ] at hφ'
  | announce => rfl

/-- A turn changes slots and adapters only through a call. -/
lemma data (hN : N.Proper) (h : N.Serves D n s v) :
    (v.flow.slot = s.slot ∧ v.flow.processor = s.processor) ∨
      ∃ x side r slot x', s.processor n = some x ∧ s.phase n = side.phase ∧
        N.Acts n s.slot x side r slot x' ∧ v.flow.slot = slot ∧
        v.flow.processor = Function.update s.processor n (some x') := by
  cases h with
  | call hx hφ hacts =>
      refine Or.inr ⟨_, _, _, _, _, hx, hφ, hacts, ?_, ?_⟩
      · rw [slot_report, slot_conclude hN]
      · rw [processor_report, processor_conclude hN]
        rfl
  | stuck => exact Or.inl ⟨rfl, rfl⟩
  | check =>
      refine Or.inl ⟨?_, ?_⟩
      · rw [slot_checkOut hN, checkIn_eq]
        rfl
      · rw [processor_checkOut hN, checkIn_eq]
        rfl
  | announce =>
      exact Or.inl ⟨slot_checkOut hN _, processor_checkOut hN _⟩

/-- A turn is counted, and so is its call. -/
lemma stats (hN : N.Proper) (h : N.Serves D n s v) :
    v.flow.stats = {
      dispatches := s.stats.dispatches + 1
      inputCalls := s.stats.inputCalls +
        v.callback.toList.countP (·.side = .input)
      outputCalls := s.stats.outputCalls +
        v.callback.toList.countP (·.side = .output) } := by
  cases h with
  | @call x x' side r slot =>
      have hcallback : ∃ result, (report D n side
          (N.conclude n side r slot x' (s.dequeue n).countTurn)).callback =
            some ⟨n, side, result⟩ := by
        cases r <;> exact ⟨_, rfl⟩
      obtain ⟨result, hcallback⟩ := hcallback
      rw [stats_report, stats_conclude hN, hcallback]
      cases side <;> rfl
  | stuck => rfl
  | check =>
      rw [stats_checkOut hN, checkIn_eq]
      rfl
  | announce =>
      rw [stats_checkOut hN]
      rfl

/-- A node is asked for output only by a node that it feeds. -/
lemma phase_output (hN : N.Proper) (h : N.Serves D n s v) {m : NodeId}
    (hm : v.flow.phase m = .output) :
    s.phase m = .output ∨ N.Feeds m n := by
  cases h with
  | call hx hφ hacts =>
      rw [phase_report] at hm
      have hm := phase_conclude hN hm
      exact Or.inl hm
  | stuck => exact Or.inl hm
  | check =>
      have hm := phase_checkOut hN hm
      rw [checkIn_eq] at hm
      simp only at hm
      split at hm
      · rename_i ha
        exact Or.inr (feeds_of_asksIn _ _ ha)
      · exact Or.inl hm
  | announce =>
      have hm := phase_checkOut hN hm
      exact Or.inl hm

end Serves

end Network

end MediaGraph

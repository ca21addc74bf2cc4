/-
What the phases of a turn do, node by node and input by input.

* `Network.checkIn_eq`: a check of a node counts the inputs about which nothing
  was said yet and queues the producers of the drained ones for output;
* `Network.announce_eq`: an announcement counts an input whose data is new, and
  queues its node for input exactly if its count is complete;
* `Network.Completed`: only such nodes wait for input, whatever is checked or
  announced;
* `Network.dropConsumed_eq`: after a call the inputs without data are not
  counted any more.
-/
import MediaGraph.Proofs.Network.Calls

namespace MediaGraph.Network

variable {σ : Type} (N : Network) (D : Option NodeId)

/-! ### Checking inputs -/

/-- A look at an input asks the node `x` for data. -/
def asks (slot : PortId → Slot) (p : PortId) (x : NodeId) : Bool :=
  decide (N.feeder p = some x) && decide ((slot p).status = .needData) &&
    decide (D ≠ some x ∨ N.async x = true)

/-- A look at an input counts it: it is linked and required, and nothing was
said about it yet. -/
def isUntouched (slot : PortId → Slot) (p : PortId) : Bool :=
  (N.feeder p).isSome && decide ((slot p).status = .ok) && !N.optional p

lemma checkInPort_eq (n : NodeId) (s : Flow σ) (p : PortId) :
    N.checkInPort D n s p = { s with
      queued := fun x => s.queued x || N.asks D s.slot p x
      phase := fun x => if N.asks D s.slot p x then .output else s.phase x
      ready := fun x => if x = n ∧ N.isUntouched s.slot p then s.ready x + 1
        else s.ready x
      counted := fun q => s.counted q || decide (q = p ∧ N.isUntouched s.slot p) }
    := by
  rw [checkInPort]
  rcases hf : N.feeder p with _ | x
  · simp [asks, isUntouched, hf]
  · cases hs : (s.slot p).status with
    | needData =>
        simp only [ask]
        split
        · rename_i hD
          ext1
          · funext y
            by_cases hy : y = x
            · subst hy
              simp [Flow.enqueue, asks, hf, hs, hD]
            · simp [Flow.enqueue, Flow.setPhase, asks, hf, hy, Ne.symm hy]
          · funext y
            by_cases hy : y = x
            · subst hy
              simp [Flow.enqueue, Flow.setPhase, asks, hf, hs, hD]
            · simp [Flow.enqueue, Flow.setPhase, asks, hf, hy, Ne.symm hy]
          all_goals simp [Flow.enqueue, Flow.setPhase, isUntouched, hs]
        · rename_i hD
          have hno : ∀ y, N.asks D s.slot p y = false := by
            intro y
            by_cases hy : y = x
            · subst hy
              simp only [asks, hf, decide_true, Bool.true_and]
              simp [hD]
            · simp [asks, hf, Ne.symm hy]
          simp [hno, isUntouched, hs]
    | ok =>
        cases ho : N.optional p
        · ext1 <;> simp [Flow.count, asks, isUntouched, hf, hs, ho]
          · funext y
            by_cases hy : y = n <;> simp [hy]
          · funext q
            by_cases hq : q = p <;> simp [hq]
        · simp [asks, isUntouched, hs, ho]
    | haveData => simp [asks, isUntouched, hs]
    | error => simp [asks, isUntouched, hs]

/-- Some input of `n` asks `x` for data when it is checked. -/
def asksIn (slot : PortId → Slot) (n x : NodeId) : Bool :=
  (N.inputs n).any fun p => N.asks D slot p x

variable {N D} in
lemma asksIn_eq_true {slot : PortId → Slot} {n x : NodeId} :
    N.asksIn D slot n x = true ↔ ∃ p ∈ N.inputs n, N.feeder p = some x ∧
      (slot p).status = .needData ∧ (D ≠ some x ∨ N.async x = true) := by
  simp only [asksIn, List.any_eq_true, asks, Bool.and_eq_true, decide_eq_true_eq,
    and_assoc]

/-- Who is asked feeds the node that asks. -/
lemma feeds_of_asksIn {slot : PortId → Slot} {n x : NodeId}
    (h : N.asksIn D slot n x = true) : N.Feeds x n := by
  obtain ⟨p, hp, hf, -⟩ := asksIn_eq_true.mp h
  exact ⟨p, hp, hf⟩

lemma foldl_checkInPort_eq (n : NodeId) (l : List PortId) (s : Flow σ) :
    l.foldl (N.checkInPort D n) s = { s with
      queued := fun x => s.queued x || l.any fun p => N.asks D s.slot p x
      phase := fun x => if l.any fun p => N.asks D s.slot p x then .output
        else s.phase x
      ready := fun x => if x = n then s.ready x + l.countP (N.isUntouched s.slot)
        else s.ready x
      counted := fun q => s.counted q || decide (q ∈ l ∧ N.isUntouched s.slot q) }
    := by
  induction l generalizing s with
  | nil => simp
  | cons p l ih =>
      rw [List.foldl_cons, ih, checkInPort_eq]
      ext1 <;> try rfl
      · funext x
        simp [Bool.or_assoc]
      · funext x
        by_cases h : N.asks D s.slot p x = true <;> simp [h]
      · funext x
        rw [List.countP_cons]
        by_cases hx : x = n <;> cases N.isUntouched s.slot p <;>
          simp [hx, Nat.add_assoc, Nat.add_comm 1]
      · funext q
        by_cases hq : q = p
        · subst hq
          cases hu : N.isUntouched s.slot q <;> simp [hu]
        · simp [hq]

/-- What a check of a node does: its count is taken anew over the inputs about
which nothing was said yet, and the producers of the drained ones are queued
for output. -/
theorem checkIn_eq (n : NodeId) (s : Flow σ) :
    N.checkIn D n s = { s with
      queued := fun x => s.queued x || N.asksIn D s.slot n x
      phase := fun x => if N.asksIn D s.slot n x then .output else s.phase x
      ready := Function.update s.ready n
        ((N.inputs n).countP (N.isUntouched s.slot))
      counted := fun q => if q ∈ N.inputs n then N.isUntouched s.slot q
        else s.counted q } := by
  rw [checkIn, foldl_checkInPort_eq]
  ext1 <;> try rfl
  · funext x
    by_cases hx : x = n
    · subst hx
      simp [reset]
    · simp [reset, hx]
  · funext q
    by_cases hq : q ∈ N.inputs n <;> simp [reset, hq]

/-! ### Announcing -/

/-- Counting one member more. -/
lemma countP_update {α : Type*} [DecidableEq α] {l : List α} {p : α} {f : α → Bool}
    (hl : l.Nodup) (hp : p ∈ l) (hf : f p = false) :
    l.countP (Function.update f p true) = l.countP f + 1 := by
  induction l with
  | nil => simp at hp
  | cons q l ih =>
      obtain ⟨hq, hl⟩ := List.nodup_cons.mp hl
      rw [List.countP_cons, List.countP_cons]
      rcases List.mem_cons.mp hp with rfl | hpl
      · have hother : l.countP (Function.update f p true) = l.countP f :=
          List.countP_congr fun r hr => by
            rw [Function.update_of_ne (by rintro rfl; exact hq hr)]
        simp [hother, hf]
      · have hqp : q ≠ p := by
          rintro rfl
          exact hq hpl
        rw [ih hl hpl, Function.update_of_ne hqp]
        omega

/-- An announcement finds an input with new data, which was not counted yet. -/
def isNew (s : Flow σ) (p : PortId) : Bool :=
  !N.optional p && !s.counted p && s.full p

variable {N} in
lemma isNew_eq_true {s : Flow σ} {p : PortId} : N.isNew s p = true ↔
    N.optional p = false ∧ s.counted p = false ∧ s.full p = true := by
  simp [isNew, and_assoc]

/-- The count of the node of an input after an announcement. -/
def readyAfter (s : Flow σ) (c : NodeId) (p : PortId) : Nat :=
  s.ready c + if N.isNew s p then 1 else 0

/-- An announcement completes the count of the node of an input. -/
def completes (s : Flow σ) (c : NodeId) (p : PortId) : Bool :=
  decide (0 < N.required c ∧ N.readyAfter s c p = N.required c)

/-- What an announcement does: new data is counted, and the node is queued for
input exactly if its count is complete. -/
theorem announce_eq (hN : N.Proper) {c : NodeId} {p : PortId}
    (hp : p ∈ N.inputs c) (s : Flow σ) :
    N.announce s p = { s with
      queued := Function.update s.queued c (N.completes s c p)
      phase := if N.completes s c p then Function.update s.phase c .input
        else s.phase
      ready := Function.update s.ready c (N.readyAfter s c p)
      counted := Function.update s.counted p (s.counted p || N.isNew s p) } := by
  have hnew : (!N.optional p && !s.counted p && s.full p) = N.isNew s p := rfl
  simp only [announce, hN.owner hp, hnew]
  have hcount : (if N.isNew s p then s.count c p else s) = { s with
      ready := Function.update s.ready c (N.readyAfter s c p)
      counted := Function.update s.counted p (s.counted p || N.isNew s p) } := by
    rw [readyAfter]
    cases N.isNew s p <;> simp [Flow.count]
  rw [hcount, completes]
  simp only [Function.update_self]
  split
  · rename_i hc
    simp [hc, Flow.setPhase, Flow.enqueue]
  · rename_i hc
    simp [hc, Flow.dequeue]

lemma slot_announce (hN : N.Proper) {c : NodeId} {p : PortId}
    (hp : p ∈ N.inputs c) (s : Flow σ) : (N.announce s p).slot = s.slot := by
  rw [N.announce_eq hN hp]

/-- An announcement counts an input if its data is new. -/
lemma ready_announce (hN : N.Proper) {c : NodeId} {p : PortId}
    (hp : p ∈ N.inputs c) (s : Flow σ) (m : NodeId) :
    (N.announce s p).ready m =
      s.ready m + if m = c ∧ N.isNew s p = true then 1 else 0 := by
  rw [N.announce_eq hN hp]
  by_cases hm : m = c <;> simp [hm, readyAfter]

/-- An announcement marks an input if its data is new. -/
lemma counted_announce (hN : N.Proper) {c : NodeId} {p : PortId}
    (hp : p ∈ N.inputs c) {s : Flow σ} {q : PortId} :
    (N.announce s p).counted q = true ↔
      s.counted q = true ∨ q = p ∧ N.isNew s p = true := by
  rw [N.announce_eq hN hp]
  by_cases hq : q = p <;> simp [hq]

/-- An announcement marks as many inputs as it counts. -/
lemma countP_announce (hN : N.Proper) {c : NodeId} {p : PortId}
    (hp : p ∈ N.inputs c) (s : Flow σ) (m : NodeId) :
    (N.inputs m).countP (N.announce s p).counted =
      (N.inputs m).countP s.counted +
        if m = c ∧ N.isNew s p = true then 1 else 0 := by
  rw [N.announce_eq hN hp]
  cases hnew : N.isNew s p with
  | false => simp
  | true =>
      have hunmarked := (isNew_eq_true.mp hnew).2.1
      rcases eq_or_ne m c with rfl | hm
      · simp [countP_update (hN.nodup m) hp hunmarked]
      · simp only [hm, false_and, if_false, Nat.add_zero, Bool.or_true]
        refine List.countP_congr fun q hq => ?_
        rw [Function.update_of_ne]
        rintro rfl
        exact hm (hN.owner_unique hq hp)

/-- An announcement that finds nothing new and completes nothing. -/
lemma announce_eq_self (hN : N.Proper) {c : NodeId} {p : PortId}
    (hp : p ∈ N.inputs c) {s : Flow σ} (hnew : N.isNew s p = false)
    (hcompletes : N.completes s c p = false) (hqueued : s.queued c = false) :
    N.announce s p = s := by
  rw [N.announce_eq hN hp, hcompletes, readyAfter, hnew]
  ext1 <;> try rfl
  · rw [← hqueued, Function.update_eq_self]
  · simp
  · simp

/-! ### Nodes about to process their inputs -/

/-- A node that waits to process its inputs requires some and counts as many as
it requires. -/
def Completed (s : Flow σ) : Prop :=
  ∀ n, s.queued n = true → s.phase n = .input →
    0 < N.required n ∧ s.ready n = N.required n

namespace Completed

variable {N} {D} {s : Flow σ} {n : NodeId}

/-- A node that does not wait starts a new round. -/
lemma reset (h : N.Completed s) (hn : s.queued n = false) :
    N.Completed (N.reset n s) := by
  intro m hm hφ
  have hmn : m ≠ n := by
    rintro rfl
    exact Bool.false_ne_true (hn.symm.trans hm)
  simp only [Network.reset, Function.update_of_ne hmn]
  exact h m hm hφ

/-- A node that does not wait is checked. -/
lemma checkIn (h : N.Completed s) (hn : s.queued n = false) :
    N.Completed (N.checkIn D n s) := by
  rw [checkIn_eq]
  intro m hm hφ
  dsimp only at hm hφ ⊢
  split at hφ
  · cases hφ
  · -- nobody asked `m` for data, so it waited before
    rename_i hasks
    replace hm : s.queued m = true := by simpa [hasks] using hm
    have hmn : m ≠ n := by
      rintro rfl
      exact Bool.false_ne_true (hn.symm.trans hm)
    rw [Function.update_of_ne hmn]
    exact h m hm hφ

/-- An announcement puts a node into the queue when its count is complete. -/
lemma announce (hN : N.Proper) (h : N.Completed s) {c : NodeId} {p : PortId}
    (hp : p ∈ N.inputs c) : N.Completed (N.announce s p) := by
  rw [N.announce_eq hN hp]
  intro m hm hφ
  rcases eq_or_ne m c with rfl | hmc
  · simp only [Function.update_self] at hm ⊢
    simpa [completes] using hm
  · simp only [Function.update_of_ne hmc] at hm ⊢
    refine h m hm ?_
    simp only at hφ
    split at hφ
    · rwa [Function.update_of_ne hmc] at hφ
    · exact hφ

end Completed

/-! ### Calls -/

/-- What is said about the inputs of one node does not change the counts of the
others. -/
lemma countP_inputs_of_ne {N : Network} (hN : N.Proper) {m n : NodeId} (hm : m ≠ n)
    (P Q : PortId → Bool) :
    ((N.inputs m).countP fun p => if p ∈ N.inputs n then P p else Q p) =
      (N.inputs m).countP Q :=
  List.countP_congr fun p hp => by
    rw [if_neg fun hpn => hm (hN.owner_unique hp hpn)]

/-- Some of the counted inputs hold data, and the others do not. -/
lemma countP_holds (l : List PortId) (counted : PortId → Bool)
    (slot : PortId → Slot) :
    l.countP counted = (l.countP fun p => counted p && N.holds slot p) +
      l.countP fun p => counted p && !N.holds slot p := by
  rw [l.countP_eq_countP_filter_add counted (N.holds slot), List.countP_filter,
    List.countP_filter]

/-- After a call the inputs of the node that hold no data are not counted any
more. -/
theorem dropConsumed_eq (hN : N.Proper) (n : NodeId) (s : Flow σ) :
    N.dropConsumed n s = { s with
      ready := Function.update s.ready n (s.ready n -
        (N.inputs n).countP fun p => s.counted p && !N.holds s.slot p)
      counted := fun p => if p ∈ N.inputs n then
        s.counted p && N.holds s.slot p else s.counted p } := by
  have key : ∀ (l : List PortId) (s : Flow σ), l.Nodup →
      l.foldl (N.uncountDrained n) s = { s with
        ready := Function.update s.ready n (s.ready n -
          l.countP fun p => s.counted p && !N.holds s.slot p)
        counted := fun p => if p ∈ l then s.counted p && N.holds s.slot p
          else s.counted p } := by
    intro l
    induction l with
    | nil => simp
    | cons p l ih =>
        intro s hl
        obtain ⟨hp, hl⟩ := List.nodup_cons.mp hl
        have hstep : N.uncountDrained n s p = { s with
            ready := Function.update s.ready n (s.ready n -
              if s.counted p && !N.holds s.slot p then 1 else 0)
            counted := Function.update s.counted p
              (s.counted p && N.holds s.slot p) } := by
          have hh : ((N.feeder p).isSome && s.full p) = N.holds s.slot p := rfl
          rw [uncountDrained, hh]
          rcases hc : s.counted p
          · have : Function.update s.counted p false = s.counted := by
              rw [← hc, Function.update_eq_self]
            simp [this]
          · have : Function.update s.counted p true = s.counted := by
              rw [← hc, Function.update_eq_self]
            cases N.holds s.slot p <;> simp [Flow.uncount, this]
        rw [List.foldl_cons, hstep, ih _ hl]
        have hother : ∀ q ∈ l, Function.update s.counted p
            (s.counted p && N.holds s.slot p) q = s.counted q := by
          intro q hq
          exact Function.update_of_ne (by rintro rfl; exact hp hq) _ _
        ext1 <;> try rfl
        · have hcount : (l.countP fun q => Function.update s.counted p
              (s.counted p && N.holds s.slot p) q && !N.holds s.slot q) =
              l.countP fun q => s.counted q && !N.holds s.slot q :=
            List.countP_congr fun q hq => by rw [hother q hq]
          simp only [hcount, Function.update_self, Function.update_idem,
            List.countP_cons, Nat.sub_sub]
          congr 2
          omega
        · funext q
          by_cases hq : q = p
          · subst hq
            simp [hp]
          · simp [hq]
  exact key _ s (hN.nodup n)

end MediaGraph.Network

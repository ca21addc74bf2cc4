/-
Runs in which never more than one node waits.

* `Flow.Only`: one node waits for its turn, in some phase;
* `Network.Forced`: turns one after the other, in each of which only one node
  waits;
* `Ends.eq_of_forced`: if nobody waits after such turns then there is no other
  way to take turns;
* `Ends.eq_tooManyTurns_of_forced`: fewer turns than these do not end;
* `Forced.stats`, `Forced.heard`: what such turns count and what they preserve;
* `Forced.processor_eq`, `Forced.slot_eq`: what they leave alone.
-/
import MediaGraph.Proofs.Stock

namespace MediaGraph

/-- One node waits for its turn, in a phase. -/
structure Flow.Only {σ : Type} (s : Flow σ) (n : NodeId) (φ : Phase) : Prop where
  queued : ∀ m, s.queued m = decide (m = n)
  phase : s.phase n = φ

namespace Network

/-! ### Forced turns -/

section Forced

variable {σ : Type} [Processor σ] {N : Network} {D : Option NodeId}
  {s t u : Flow σ} {k j : Nat} {calls calls' : List Callback}

/-- Turns without a failure, and the calls that were made in them. In each of
them only one node waits, and it has a processor. -/
inductive Forced (N : Network) (D : Option NodeId) :
    Flow σ → Nat → List Callback → Flow σ → Prop
  | refl {s : Flow σ} : Forced N D s 0 [] s
  | turn {s t u : Flow σ} {n : NodeId} {call : Option Callback} {k : Nat}
      {calls : List Callback} :
      (∀ m, s.queued m = decide (m = n)) → (s.processor n).isSome = true →
      N.serve D n s = ⟨t, call, none⟩ → Forced N D t k calls u →
      Forced N D s (k + 1) (call.toList ++ calls) u

namespace Forced

lemma trans (h : N.Forced D s k calls t) (h' : N.Forced D t j calls' u) :
    N.Forced D s (k + j) (calls ++ calls') u := by
  induction h with
  | refl => simpa using h'
  | turn hn hx hserve _ ih =>
      rw [Nat.add_right_comm, List.append_assoc]
      exact .turn hn hx hserve (ih h')

/-- What every turn preserves holds after forced turns. -/
lemma invariant {P : Flow σ → Prop} (h : N.Forced D s k calls t) (hs : P s)
    (hstep : ∀ t n, P t → P (N.serve D n t).flow) : P t := by
  induction h with
  | refl => exact hs
  | @turn s t u n _ _ _ _ _ hserve _ ih =>
      have := hstep s n hs
      rw [hserve] at this
      exact ih this

/-- A run from the start of forced turns goes along them, if it is not longer or
nobody waits after them. -/
lemma of_runs (h : N.Forced D s k calls t) (hr : N.Runs D s j calls' u)
    (hk : j ≤ k ∨ ∀ n, t.queued n = false) :
    ∃ i rest, k = j + i ∧ calls = calls' ++ rest ∧ N.Forced D u i rest t := by
  induction hr with
  | refl => exact ⟨k, calls, by simp, rfl, h⟩
  | @turn j calls' t' u' n call _ hn hserve ih =>
      obtain ⟨i, rest, rfl, rfl, hrest⟩ := ih (hk.imp_left Nat.le_of_succ_le)
      cases hrest with
      | refl => exact hk.elim (fun hk => by omega) fun hnone => by simp [hnone n] at hn
      | @turn _ _ _ m _ i rest hm _ hserve' hrest =>
          obtain rfl : n = m := by simpa [hm] using hn
          rw [hserve] at hserve'
          cases hserve'
          exact ⟨i, rest, by omega, by simp, hrest⟩

end Forced

/-- If nobody waits after forced turns, there is no other way to take turns. -/
theorem Ends.eq_of_forced (h : N.Forced D s k calls t)
    (hnone : ∀ n, t.queued n = false) {budget : Nat}
    {r : Except ActivationError Unit}
    (hk : k ≤ budget ∨ r ≠ .error .tooManyTurns)
    (hends : N.Ends D s budget r calls' u) :
    r = .ok () ∧ calls' = calls ∧ u = t := by
  cases hends with
  | settled hruns _ hu =>
      obtain ⟨i, rest, -, rfl, hrest⟩ := h.of_runs hruns (Or.inr hnone)
      cases hrest with
      | refl => simp
      | @turn _ _ _ m _ _ _ hm => simpa [hm] using hu m
  | failed hruns _ hn hserve =>
      obtain ⟨i, rest, -, rfl, hrest⟩ := h.of_runs hruns (Or.inr hnone)
      cases hrest with
      | refl => simp [hnone] at hn
      | turn hm _ hserve' _ =>
          rw [hm, decide_eq_true_eq] at hn
          subst hn
          simp [hserve] at hserve'
  | exhausted hruns hn =>
      obtain ⟨i, rest, hi, rfl, hrest⟩ := h.of_runs hruns (Or.inr hnone)
      cases hrest with
      | refl => simp [hnone] at hn
      | turn => exact hk.elim (fun hk => by omega) fun hr => absurd rfl hr

/-- Fewer turns than are forced do not end. -/
theorem Ends.eq_tooManyTurns_of_forced (h : N.Forced D s k calls t)
    {budget : Nat} {r : Except ActivationError Unit} (hk : budget < k)
    (hends : N.Ends D s budget r calls' u) : r = .error .tooManyTurns := by
  cases hends with
  | settled hruns hj hu =>
      obtain ⟨i, rest, hi, rfl, hrest⟩ := h.of_runs hruns (Or.inl (by omega))
      cases hrest with
      | refl => omega
      | @turn _ _ _ m _ _ _ hm => simpa [hm] using hu m
  | failed hruns hj hn hserve =>
      obtain ⟨i, rest, hi, rfl, hrest⟩ := h.of_runs hruns (Or.inl (by omega))
      cases hrest with
      | refl => omega
      | turn hm _ hserve' _ =>
          rw [hm, decide_eq_true_eq] at hn
          subst hn
          simp [hserve] at hserve'
  | exhausted => rfl

end Forced

/-! ### Forced turns of adapters -/

variable {τ : Type} {d : Description} {N : Network} {D : Option NodeId}
  {s t : Flow (Adapter τ)} {k : Nat} {calls : List Callback} {n K : NodeId}

/-- All inputs of a node that are not optional hold data or ask for it. -/
def Heard (N : Network) (s : Flow (Adapter τ)) (n : NodeId) : Prop :=
  ∀ p ∈ N.inputs n, N.optional p = false →
    (s.slot p).status = .haveData ∨ (s.slot p).status = .needData

variable [Processor τ]

/-- Every turn keeps what the inputs of a node hold or ask for. -/
lemma Heard.serve (hN : d.Realized N) (hs : d.Staffed s) (h : N.Heard s n)
    (D : Option NodeId) (m : NodeId) : N.Heard (N.serve D m s).flow n := by
  intro p hp ho
  rcases hs.serves hN D m with hserves | hidle
  · rcases hserves.data hN.proper with
      ⟨hslot, -⟩ | ⟨x, side, r, slot, x', -, -, hacts, hslot, -⟩
    · rw [hslot]
      exact h p hp ho
    · rw [hslot]
      rcases hacts.kept p with hk | hk | hk
      · rw [hk]
        exact h p hp ho
      · exact Or.inl hk
      · exact Or.inr hk
  · rw [hidle]
    exact h p hp ho

/-- A turn changes no adapter but that of a node that is called. -/
lemma processor_serve (hN : d.Realized N) (hs : d.Staffed s) (D : Option NodeId)
    (hK : ∀ call ∈ (N.serve D n s).callback, call.node ≠ K) :
    (N.serve D n s).flow.processor K = s.processor K := by
  rcases hs.serves hN D n with hserves | hidle
  · generalize N.serve D n s = v at hserves hK
    cases hserves with
    | @call x x' side r slot =>
        rw [processor_report, processor_conclude hN.proper]
        refine Function.update_of_ne ?_ _ _
        cases r <;> exact (hK _ rfl).symm
    | stuck => rfl
    | check =>
        rw [processor_checkOut hN.proper, checkIn_eq]
        rfl
    | announce =>
        rw [processor_checkOut hN.proper]
        rfl
  · rw [hidle]
    rfl

omit [Processor τ] in
/-- A call leaves the links alone that do not belong to its node. -/
lemma Acts.slot_eq {slot slot' : PortId → Slot} {x x' : Adapter τ} {side : Side}
    {r : Except ProcessError Verdict} (h : N.Acts n slot x side r slot' x')
    {q : PortId} (hin : q ∉ N.inputs n) (hout : q ∉ N.targets n) :
    slot' q = slot q := by
  have hon : ∀ f, N.onInputs n f slot q = slot q :=
    fun f => if_neg fun hc => hin hc.1
  have hinput : ∀ {p}, N.inputs n = [p] → q ≠ p := by
    rintro p hp rfl
    simp [hp] at hin
  have houtput : ∀ {p}, N.outputs n = [some p] → q ≠ p := by
    rintro p ho rfl
    simp [targets_of_outputs ho] at hout
  cases h with
  | notSupported | mute | keep | deaf | idle | hold => rfl
  | dry ho | produce ho => exact Function.update_of_ne (houtput ho) ..
  | consume hp | want hp => exact Function.update_of_ne (hinput hp) ..
  | request => exact hon _
  | spill ho | mix ho => rw [Function.update_of_ne (houtput ho), hon]

/-- A turn changes no link but those of a node that is called. -/
lemma slot_serve (hN : d.Realized N) (hs : d.Staffed s) (D : Option NodeId)
    {q : PortId} (hq : ∀ call ∈ (N.serve D n s).callback,
      q ∉ N.inputs call.node ∧ q ∉ N.targets call.node) :
    (N.serve D n s).flow.slot q = s.slot q := by
  rcases hs.serves hN D n with hserves | hidle
  · generalize N.serve D n s = v at hserves hq
    cases hserves with
    | @call x x' side r slot _ _ hacts =>
        rw [slot_report, slot_conclude hN.proper]
        obtain ⟨hin, hout⟩ : q ∉ N.inputs n ∧ q ∉ N.targets n := by
          cases r <;> exact hq _ rfl
        exact hacts.slot_eq hin hout
    | stuck => rfl
    | check =>
        rw [slot_checkOut hN.proper, checkIn_eq]
        rfl
    | announce =>
        rw [slot_checkOut hN.proper]
        rfl
  · rw [hidle]
    rfl

namespace Forced

/-- Forced turns keep what the inputs of a node hold or ask for. -/
lemma heard (hN : d.Realized N) (h : N.Forced D s k calls t) (hs : d.Sound N s)
    (hn : N.Heard s n) : N.Heard t n :=
  (h.invariant (P := fun t => d.Sound N t ∧ N.Heard t n) ⟨hs, hn⟩
    fun _ m ht => ⟨ht.1.serve hN D m, ht.2.serve hN ht.1.staffed D m⟩).2

/-- Forced turns change no adapter but those of nodes that are called. -/
lemma processor_eq (hN : d.Realized N) (h : N.Forced D s k calls t)
    (hs : d.Staffed s) (hK : ∀ call ∈ calls, call.node ≠ K) :
    t.processor K = s.processor K := by
  induction h with
  | refl => rfl
  | @turn s t u n call k calls _ _ hserve _ ih =>
      have hflow := hs.serve hN D n
      have hprocessor := processor_serve (n := n) (K := K) hN hs D
      rw [hserve] at hflow hprocessor
      rw [ih hflow fun c hc => hK c (by simp [hc])]
      exact hprocessor fun c hc => hK c (by simp [show call = some c from hc])

/-- Forced turns change no link but those of nodes that are called. -/
lemma slot_eq (hN : d.Realized N) (h : N.Forced D s k calls t)
    (hs : d.Staffed s) {q : PortId}
    (hq : ∀ call ∈ calls, q ∉ N.inputs call.node ∧ q ∉ N.targets call.node) :
    t.slot q = s.slot q := by
  induction h with
  | refl => rfl
  | @turn s t u n call k calls _ _ hserve _ ih =>
      have hflow := hs.serve hN D n
      have hslot := slot_serve (n := n) (q := q) hN hs D
      rw [hserve] at hflow hslot
      rw [ih hflow fun c hc => hq c (by simp [hc])]
      exact hslot fun c hc => hq c (by simp [show call = some c from hc])

/-- Forced turns are counted, and so are their calls. -/
lemma stats (hN : d.Realized N) (h : N.Forced D s k calls t)
    (hs : d.Staffed s) :
    t.stats = {
      dispatches := s.stats.dispatches + k
      inputCalls := s.stats.inputCalls + calls.countP (·.side = .input)
      outputCalls := s.stats.outputCalls + calls.countP (·.side = .output) } := by
  induction h with
  | refl => rfl
  | @turn s t u n call k calls _ hx hserve _ ih =>
      obtain ⟨x, hx⟩ := Option.isSome_iff_exists.mp hx
      have hflow := hs.serve hN D n
      have hstats := (serves hN.proper D hx (hs.suits hN hx)).stats hN.proper
      rw [hserve] at hflow hstats
      simp only at hstats
      rw [ih hflow, hstats, List.countP_append, List.countP_append]
      simp only [ActivationStats.mk.injEq]
      omega

end Forced

end Network

end MediaGraph

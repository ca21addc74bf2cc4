/-
Turns that go well.

* `Network.Turns`: what a turn that goes well leaves behind;
* `Turns.queued_self`, `Turns.queued_other`, `Turns.phase_output`: who waits for
  a turn afterwards, and in which phase;
* `Turns.counted`: which inputs are counted afterwards;
* `Turns.fills`, `Turns.drains`: data is put on a link by the node that feeds
  it, which uses up its own inputs, and taken by the node at its end, which
  passes it on.
-/
import MediaGraph.Proofs.Counting

namespace MediaGraph.Network

variable {τ : Type} {N : Network} {D : Option NodeId} {w m : NodeId}
  {s u : Flow (Adapter τ)} {p : PortId}

/-- What a turn of `w` that goes well leaves behind. -/
inductive Turns (N : Network) (D : Option NodeId) (w : NodeId)
    (s : Flow (Adapter τ)) : Flow (Adapter τ) → Prop
  | call {x x' : Adapter τ} {side : Side} {verdict : Verdict}
      {slot : PortId → Slot} {u : Flow (Adapter τ)} :
      s.processor w = some x → N.Suits w x → s.phase w = side.phase →
      N.Acts w s.slot x side (.ok verdict) slot x' →
      u.queued =
        Function.update s.queued w (!decide (side = .input ∧ D = some w)) →
      u.phase = Function.update s.phase w (Node.phaseAfter verdict) →
      u.slot = slot →
      (∀ q, u.counted q = if q ∈ N.inputs w then
        decide (side = .output) && (s.counted q && N.holds slot q)
        else s.counted q) →
      Turns N D w s u
  | check :
      s.phase w = .checkInput →
      Turns N D w s (N.checkOut w (N.checkIn D w (s.dequeue w).countTurn))
  | announce :
      s.phase w = .checkOutput →
      Turns N D w s (N.checkOut w (s.dequeue w).countTurn)

/-- A turn without a failure goes well. -/
lemma Serves.turns (hN : N.Proper) {v : FlowTurn (Adapter τ)}
    (h : N.Serves D w s v) (hv : v.failure = none)
    (hsuits : ∀ x, s.processor w = some x → N.Suits w x) :
    N.Turns D w s v.flow := by
  cases h with
  | @call x x' side r slot hx hφ hacts =>
      cases r with
      | error e => cases hv
      | ok verdict =>
          have hc := N.called hN D w side verdict slot x' s
          refine .call hx (hsuits x hx) hφ hacts hc.queued hc.phase hc.slot
            fun q => ?_
          rw [counted_report, counted_conclude hN]
          rfl
  | stuck => cases hv
  | check hφ => exact .check hφ
  | announce hφ => exact .announce hφ

namespace Turns

/-! ### Who waits for a turn -/

/-- Who announces is not queued by that. -/
private lemma queued_checkOut_self (hN : N.Proper) {t : Flow (Adapter τ)}
    (ht : t.queued w = false) : (N.checkOut w t).queued w = false := by
  refine checkOut_induction (P := fun u => u.queued w = false) hN ht
    fun u c q hq hc hu => ?_
  have hcw : w ≠ c := by
    rintro rfl
    exact hN.not_mem_inputs hq hc
  rw [N.announce_eq hN hc]
  simpa [Function.update_of_ne hcw] using hu

/-- Announcements queue only nodes that the announcing node feeds. -/
private lemma queued_checkOut (hN : N.Proper) {t : Flow (Adapter τ)}
    (h : (N.checkOut w t).queued m = true) :
    (t.queued m = true ∧ (N.checkOut w t).phase m = t.phase m) ∨
      (N.Feeds w m ∧ (N.checkOut w t).phase m = .input) := by
  refine checkOut_induction (P := fun u => u.queued m = true →
    (t.queued m = true ∧ u.phase m = t.phase m) ∨
      (N.Feeds w m ∧ u.phase m = .input)) hN (fun h => Or.inl ⟨h, rfl⟩)
    (fun u c q hq hc ih hu => ?_) h
  rw [N.announce_eq hN hc] at hu ⊢
  dsimp only at hu ⊢
  rcases eq_or_ne m c with rfl | hmc
  · rw [Function.update_self] at hu
    rw [hu, if_pos rfl, Function.update_self]
    exact Or.inr ⟨⟨q, hc, (hN.feeder hc w).mpr hq⟩, rfl⟩
  · rw [Function.update_of_ne hmc] at hu
    have hphase : (if N.completes u c q = true then
        Function.update u.phase c .input else u.phase) m = u.phase m := by
      split
      · exact Function.update_of_ne hmc ..
      · rfl
    rw [hphase]
    exact ih hu

lemma asksIn_self (hN : N.Proper) (slot : PortId → Slot) :
    N.asksIn D slot w w = false := by
  rw [asksIn, List.any_eq_false]
  intro q hq
  simp [asks, hN.irrefl hq]

/-- A node waits for its next turn only after a call, and the driver not after
its inputs were processed. -/
lemma queued_self (hN : N.Proper) (h : N.Turns D w s u)
    (hw : u.queued w = true) :
    ((s.phase w = .input ∧ D ≠ some w) ∨ s.phase w = .output) ∧
      (u.phase w = .checkInput ∨ u.phase w = .checkOutput) := by
  cases h with
  | @call x x' side verdict slot u _ _ hφ _ hqueued hphase =>
      rw [hqueued, Function.update_self] at hw
      rw [hphase, Function.update_self]
      refine ⟨?_, by cases verdict <;> simp [Node.phaseAfter]⟩
      cases side with
      | input => exact Or.inl ⟨hφ, by simpa using hw⟩
      | output => exact Or.inr hφ
  | check =>
      have : (N.checkIn D w (s.dequeue w).countTurn).queued w = false := by
        rw [checkIn_eq]
        simp [asksIn_self hN, Flow.dequeue, Flow.countTurn]
      rw [queued_checkOut_self hN this] at hw
      cases hw
  | announce =>
      have : (s.dequeue w).countTurn.queued w = false := Function.update_self ..
      rw [queued_checkOut_self hN this] at hw
      cases hw

/-- Another node waits as before, was asked for output, or has its inputs
complete. -/
lemma queued_other (hN : N.Proper) (h : N.Turns D w s u) (hm : m ≠ w)
    (hu : u.queued m = true) :
    (s.queued m = true ∧ u.phase m = s.phase m) ∨
      (s.phase w = .checkInput ∧ N.asksIn D s.slot w m = true ∧
        u.phase m = .output) ∨
      (N.Feeds w m ∧ u.phase m = .input) := by
  have hleft : (s.dequeue w).countTurn.queued m = s.queued m :=
    Function.update_of_ne hm ..
  cases h with
  | call _ _ _ _ hqueued hphase =>
      rw [hqueued, Function.update_of_ne hm] at hu
      rw [hphase, Function.update_of_ne hm]
      exact Or.inl ⟨hu, rfl⟩
  | check hφ =>
      rcases queued_checkOut hN hu with ⟨hq, hp⟩ | hin
      · rw [hp]
        rw [checkIn_eq] at hq ⊢
        dsimp only at hq ⊢
        rw [hleft, Bool.or_eq_true] at hq
        cases ha : N.asksIn D (s.dequeue w).countTurn.slot w m with
        | true => exact Or.inr (Or.inl ⟨hφ, ha, if_pos rfl⟩)
        | false =>
            rw [ha] at hq
            exact Or.inl ⟨by simpa using hq, rfl⟩
      · exact Or.inr (Or.inr hin)
  | announce hφ =>
      rcases queued_checkOut hN hu with ⟨hq, hp⟩ | hin
      · rw [hleft] at hq
        exact Or.inl ⟨hq, hp⟩
      · exact Or.inr (Or.inr hin)

/-- A node comes into the phase in which it is asked for output only when a node
that it feeds asks it. -/
lemma phase_output (hN : N.Proper) (h : N.Turns D w s u)
    (hu : u.phase m = .output) :
    (m ≠ w ∧ s.phase m = .output) ∨
      (s.phase w = .checkInput ∧ N.asksIn D s.slot w m = true) := by
  cases h with
  | @call x x' side verdict slot u _ _ _ _ _ hphase =>
      rw [hphase] at hu
      rcases eq_or_ne m w with rfl | hm
      · rw [Function.update_self] at hu
        cases verdict <;> cases hu
      · rw [Function.update_of_ne hm] at hu
        exact Or.inl ⟨hm, hu⟩
  | check hφ =>
      have hu := phase_checkOut hN hu
      rw [checkIn_eq] at hu
      dsimp only at hu
      split at hu
      · exact Or.inr ⟨hφ, by assumption⟩
      · refine Or.inl ⟨?_, hu⟩
        rintro rfl
        rw [show (s.dequeue m).countTurn.phase m = s.phase m from rfl, hφ] at hu
        cases hu
  | announce hφ =>
      have hu := phase_checkOut hN hu
      refine Or.inl ⟨?_, hu⟩
      rintro rfl
      rw [show (s.dequeue m).countTurn.phase m = s.phase m from rfl, hφ] at hu
      cases hu

/-! ### Counts -/

/-- An announcement counts only inputs that hold data. -/
private lemma counted_checkOut (hN : N.Proper) {t : Flow (Adapter τ)}
    (h : (N.checkOut w t).counted p = true) :
    t.counted p = true ∨ (p ∈ N.targets w ∧ t.full p = true) := by
  refine (checkOut_induction (P := fun u => u.slot = t.slot ∧
    (u.counted p = true → t.counted p = true ∨
      (p ∈ N.targets w ∧ t.full p = true))) hN ⟨rfl, Or.inl⟩
    fun u c q hq hc ih => ?_).2 h
  rw [N.announce_eq hN hc]
  refine ⟨ih.1, fun hu => ?_⟩
  dsimp only at hu
  rw [Function.update_apply] at hu
  split at hu
  · rename_i hpq
    subst hpq
    rcases Bool.or_eq_true_iff.mp hu with hu | hu
    · exact ih.2 hu
    · refine Or.inr ⟨hq, ?_⟩
      simp only [isNew, Flow.full, ih.1, Bool.and_eq_true] at hu
      exact hu.2
  · exact ih.2 hu

/-- An input is counted when nothing was said about it yet and its node checks
its inputs, or when its data is announced. -/
lemma counted (hN : N.Proper) (h : N.Turns D w s u) (hp : p ∈ N.inputs m)
    (hu : u.counted p = true) (hs : s.counted p = false) :
    (m = w ∧ s.phase w = .checkInput ∧ (s.slot p).status = .ok ∧
        (N.feeder p).isSome = true) ∨
      (N.feeder p = some w ∧ s.full p = true ∧
        (s.phase w = .checkInput ∨ s.phase w = .checkOutput)) := by
  cases h with
  | call _ _ _ _ _ _ _ hcounted =>
      rw [hcounted, hs] at hu
      split at hu <;> simp at hu
  | check hφ =>
      rcases counted_checkOut hN hu with hu | ⟨ht, hfull⟩
      · rw [checkIn_eq] at hu
        dsimp only at hu
        split at hu
        · rename_i hpw
          simp only [isUntouched, Bool.and_eq_true, decide_eq_true_eq] at hu
          exact Or.inl ⟨hN.owner_unique hp hpw, hφ, hu.1.2, hu.1.1⟩
        · exact absurd (hs.symm.trans hu) Bool.false_ne_true
      · rw [checkIn_eq] at hfull
        exact Or.inr ⟨(hN.feeder hp w).mpr ht, hfull, Or.inl hφ⟩
  | announce hφ =>
      rcases counted_checkOut hN hu with hu | ⟨ht, hfull⟩
      · exact absurd (hs.symm.trans hu) Bool.false_ne_true
      · exact Or.inr ⟨(hN.feeder hp w).mpr ht, hfull, Or.inr hφ⟩

/-- A node that checked its inputs counts those about which nothing was said. -/
lemma counted_of_check (hN : N.Proper) (h : N.Turns D w s u)
    (hφ : s.phase w = .checkInput) (hp : p ∈ N.inputs w)
    (hu : u.counted p = true) : (s.slot p).status = .ok := by
  cases h with
  | @call x x' side verdict slot u _ _ hφ' =>
      cases side <;> simp [hφ, Side.phase] at hφ'
  | check =>
      rcases counted_checkOut hN hu with hu | ⟨ht, -⟩
      · rw [checkIn_eq] at hu
        dsimp only at hu
        rw [if_pos hp] at hu
        simp only [isUntouched, Bool.and_eq_true, decide_eq_true_eq] at hu
        exact hu.1.2
      · exact absurd hp (hN.not_mem_inputs ht)
  | announce hφ' => simp [hφ] at hφ'

/-- A node that processed its inputs counts none of them. -/
lemma counted_of_input (h : N.Turns D w s u) (hφ : s.phase w = .input)
    (hp : p ∈ N.inputs w) : u.counted p = false := by
  cases h with
  | @call x x' side verdict slot u _ _ hφ' _ _ _ _ hcounted =>
      cases side with
      | input => rw [hcounted, if_pos hp]; rfl
      | output => simp [hφ, Side.phase] at hφ'
  | check hφ' => simp [hφ] at hφ'
  | announce hφ' => simp [hφ] at hφ'

end Turns

/-! ### Links -/

/-- How a node makes output: what it requires is there, and what was there is
used up. -/
structure Makes (N : Network) (w : NodeId) (s u : Flow (Adapter τ)) : Prop where
  called : s.phase w = .input ∨ s.phase w = .output
  phase : u.phase w = .checkOutput
  counted : ∀ q ∈ N.inputs w, u.counted q = false
  required : ∀ q ∈ N.inputs w, (N.feeder q).isSome = true →
    N.optional q = false → s.full q = true
  used : N.inputs w = [] ∨
    ∃ q ∈ N.inputs w, (N.feeder q).isSome = true ∧ s.full q = true
  emptied : ∀ q ∈ N.inputs w, (N.feeder q).isSome = true → u.full q = false

section Acts

variable {slot slot' : PortId → Slot} {x x' : Adapter τ} {side : Side}
  {verdict : Verdict}

/-- Where a call puts data: on the output of its node, whose inputs it used up. -/
lemma Acts.fills (hN : N.Proper) (h : N.Acts w slot x side (.ok verdict) slot' x')
    (hsuits : N.Suits w x) (hp : (slot p).hasData = false)
    (hp' : (slot' p).hasData = true) :
    p ∈ N.targets w ∧ verdict = .haveOutput ∧
      (∀ q ∈ N.inputs w, N.isMissing slot q = false) ∧
      (N.inputs w = [] ∨ ∃ q ∈ N.inputs w, N.holds slot q = true) ∧
      ∀ q ∈ N.inputs w, N.holds slot' q = false := by
  have hsame : ∀ {q c}, c.hasData = false →
      (Function.update slot q c p).hasData = false := by
    intro q c hc
    rw [Function.update_apply]
    split
    · exact hc
    · exact hp
  cases h with
  | keep | hold => exact absurd (hp.symm.trans hp') Bool.false_ne_true
  | consume | want =>
      exact absurd ((hsame (Slot.hasData_request _)).symm.trans hp')
        Bool.false_ne_true
  | request =>
      rw [hasData_onInputs_requestIfDrained] at hp'
      exact absurd (hp.symm.trans hp') Bool.false_ne_true
  | @produce src q b pool ho =>
      have hpq : p = q := by
        by_contra hne
        rw [Function.update_of_ne hne, hp] at hp'
        cases hp'
      have hin : N.inputs w = [] := hsuits.1
      refine ⟨by simp [targets_of_outputs ho, hpq], rfl, ?_, Or.inl hin, ?_⟩ <;>
        simp [hin]
  | @mix mixer side q b pool ho _ hmissing hholds =>
      have hq : q ∈ N.targets w := by simp [targets_of_outputs ho]
      have hpq : p = q := by
        by_contra hne
        rw [Function.update_of_ne hne, onInputs] at hp'
        split at hp'
        · simp at hp'
        · simp [hp] at hp'
      refine ⟨hpq ▸ hq, rfl, hmissing, Or.inr hholds, fun r hr => ?_⟩
      have hrq : r ≠ q := by
        rintro rfl
        exact hN.not_mem_inputs hq hr
      rw [holds, Function.update_of_ne hrq, onInputs]
      cases (N.feeder r).isSome <;> simp [hr]

/-- Where a call takes data: from the inputs of its node, which puts its output
on a link or is a sink. -/
lemma Acts.drains (h : N.Acts w slot x side (.ok verdict) slot' x')
    (hp : (slot p).hasData = true) (hp' : (slot' p).hasData = false) :
    p ∈ N.inputs w ∧
      ((∃ q ∈ N.targets w, (slot q).hasData = false ∧
          (slot' q).hasData = true) ∨ x.kind? = some .sink) := by
  have hsame : ∀ {q c}, (Function.update slot q c p).hasData = false → p = q := by
    intro q c hc
    by_contra hne
    rw [Function.update_of_ne hne, hp] at hc
    cases hc
  cases h with
  | keep | hold => exact absurd (hp'.symm.trans hp) Bool.false_ne_true
  | consume hin | want hin =>
      obtain rfl := hsame hp'
      exact ⟨by simp [hin], Or.inr rfl⟩
  | request =>
      rw [hasData_onInputs_requestIfDrained] at hp'
      exact absurd (hp'.symm.trans hp) Bool.false_ne_true
  | produce ho hd =>
      obtain rfl := hsame hp'
      exact absurd (hd.symm.trans hp) Bool.false_ne_true
  | @mix mixer side q b pool ho hd =>
      refine ⟨?_, Or.inl ⟨q, by simp [targets_of_outputs ho], hd, ?_⟩⟩
      · by_contra hpn
        rcases eq_or_ne p q with rfl | hne
        · exact absurd (hd.symm.trans hp) Bool.false_ne_true
        · rw [Function.update_of_ne hne, onInputs, if_neg fun hc => hpn hc.1] at hp'
          exact absurd (hp'.symm.trans hp) Bool.false_ne_true
      · rw [Function.update_self]
        rfl

/-- A node that is not a sink makes output if it has what it requires. -/
lemma Acts.haveOutput (h : N.Acts w slot x side (.ok verdict) slot' x')
    (hkind : x.kind? ≠ some .sink)
    (hmissing : ∀ q ∈ N.inputs w, N.isMissing slot q = false)
    (hholds : ∃ q ∈ N.inputs w, N.holds slot q = true) :
    verdict = .haveOutput := by
  cases h with
  | keep | hold | produce | mix => rfl
  | consume | want => exact absurd rfl hkind
  | request _ _ _ hr =>
      rcases hr with ⟨q, hq, hm⟩ | hnone
      · simp [hmissing q hq] at hm
      · obtain ⟨q, hq, hh⟩ := hholds
        simp [hnone q hq] at hh

end Acts

namespace Turns

/-- Slots change only in a call. -/
lemma slot_eq_or (hN : N.Proper) (h : N.Turns D w s u) :
    u.slot = s.slot ∨ ∃ x x' side verdict, s.processor w = some x ∧
      N.Suits w x ∧ s.phase w = side.phase ∧
      N.Acts w s.slot x side (.ok verdict) u.slot x' ∧
      u.phase w = Node.phaseAfter verdict ∧
      ∀ q ∈ N.inputs w, u.counted q = true → N.holds u.slot q = true := by
  cases h with
  | @call x x' side verdict slot u hx hsuits hφ hacts _ hphase hslot hcounted =>
      subst hslot
      refine Or.inr ⟨x, x', side, verdict, hx, hsuits, hφ, hacts,
        by rw [hphase, Function.update_self], fun q hq hc => ?_⟩
      rw [hcounted, if_pos hq, Bool.and_eq_true, Bool.and_eq_true] at hc
      exact hc.2.2
  | check =>
      refine Or.inl ?_
      rw [slot_checkOut hN, checkIn_eq]
      rfl
  | announce => exact Or.inl (slot_checkOut hN _)

/-- Data is put on a link by the node that feeds it, when it makes output. -/
theorem fills (hN : N.Proper) (h : N.Turns D w s u) (hp : p ∈ N.inputs m)
    (hs : s.full p = false) (hu : u.full p = true) :
    N.feeder p = some w ∧ N.Makes w s u := by
  rcases h.slot_eq_or hN with
    hslot | ⟨x, x', side, verdict, hx, hsuits, hφ, hacts, hphase, hcounted⟩
  · rw [Flow.full, hslot] at hu
    exact absurd (hs.symm.trans hu) Bool.false_ne_true
  · obtain ⟨ht, rfl, hmissing, hused, hempty⟩ := hacts.fills hN hsuits hs hu
    refine ⟨(hN.feeder hp w).mpr ht, ?_, hphase, fun q hq => ?_,
      fun q hq hf ho => ?_, ?_, fun q hq hf => ?_⟩
    · cases side
      · exact Or.inl hφ
      · exact Or.inr hφ
    · by_contra hc
      have := hcounted q hq (by simpa using hc)
      simp [hempty q hq] at this
    · have := hmissing q hq
      simpa [isMissing, hf, ho, Flow.full] using this
    · refine hused.imp_right ?_
      rintro ⟨q, hq, hh⟩
      exact ⟨q, hq, N.holds_iff.mp hh⟩
    · have := hempty q hq
      simpa [holds, hf, Flow.full] using this

/-- Data is taken from a link by the node at its end, which puts its output on a
link or is a sink. -/
theorem drains (hN : N.Proper) (h : N.Turns D w s u) (hp : p ∈ N.inputs m)
    (hs : s.full p = true) (hu : u.full p = false) :
    m = w ∧ ((∃ q ∈ N.targets w, s.full q = false ∧ u.full q = true) ∨
      ∃ x, s.processor w = some x ∧ x.kind? = some .sink) := by
  rcases h.slot_eq_or hN with
    hslot | ⟨x, x', side, verdict, hx, -, -, hacts, -, -⟩
  · rw [Flow.full, hslot] at hu
    exact absurd (hu.symm.trans hs) Bool.false_ne_true
  · obtain ⟨hpw, hout⟩ := hacts.drains hs hu
    exact ⟨hN.owner_unique hp hpw, hout.imp_right fun hk => ⟨x, hx, hk⟩⟩

/-- A turn leaves data or a request behind wherever it changes a status. -/
lemma kept (hN : N.Proper) (h : N.Turns D w s u) (q : PortId) :
    (s.slot q).Kept (u.slot q) := by
  rcases h.slot_eq_or hN with hslot | ⟨x, x', side, verdict, -, -, -, hacts, -, -⟩
  · rw [hslot]
    exact Or.inl rfl
  · exact hacts.kept q

/-- Links about which something was said are not untouched again. -/
lemma status_ne_ok (hN : N.Proper) (h : N.Turns D w s u) {q : PortId}
    (hq : (s.slot q).status ≠ .ok) : (u.slot q).status ≠ .ok := by
  rcases h.kept hN q with hk | hk | hk <;> rw [hk]
  · exact hq
  · simp
  · simp

/-- A node that waits to check its inputs after a call asked for all that are
drained. -/
lemma asked (hN : N.Proper) (h : N.Turns D w s u) (hw : u.queued w = true)
    (hφ : u.phase w = .checkInput) {q : PortId} (hq : q ∈ N.inputs w)
    (hf : (N.feeder q).isSome = true) : (u.slot q).status ≠ .ok := by
  have hcalled := (h.queued_self hN hw).1
  cases h with
  | @call x x' side verdict slot u _ _ _ hacts _ hphase hslot _ =>
      rw [hphase, Function.update_self] at hφ
      rw [hslot]
      cases verdict with
      | needInput => exact hacts.asked hq hf
      | haveOutput => cases hφ
  | check hφ' => simp [hφ'] at hcalled
  | announce hφ' => simp [hφ'] at hcalled

/-- A node that is not a sink makes output if it has what it requires. -/
lemma phase_of_input (h : N.Turns D w s u) (hφ : s.phase w = .input)
    (hkind : ∀ x, s.processor w = some x → x.kind? ≠ some .sink)
    (hrequired : ∀ q ∈ N.inputs w, (N.feeder q).isSome = true →
      N.optional q = false → s.full q = true)
    (hused : ∃ q ∈ N.inputs w, (N.feeder q).isSome = true ∧ s.full q = true) :
    u.phase w = .checkOutput := by
  cases h with
  | @call x x' side verdict slot u hx _ _ hacts _ hphase _ _ =>
      have hverdict := hacts.haveOutput (hkind x hx) (fun q hq => ?_) ?_
      · rw [hphase, Function.update_self, hverdict]
        rfl
      · rw [isMissing]
        cases hf : (N.feeder q).isSome
        · rfl
        · cases ho : N.optional q
          · have hfull : (s.slot q).hasData = true := hrequired q hq hf ho
            simp [hfull]
          · simp
      · obtain ⟨q, hq, hf, hfull⟩ := hused
        exact ⟨q, hq, N.holds_iff.mpr ⟨hf, hfull⟩⟩
  | check hφ' => simp [hφ'] at hφ
  | announce hφ' => simp [hφ'] at hφ

end Turns

end MediaGraph.Network

/-
Runs that do not end.

* `exists_change`, `exists_last_change`, `exists_first`, `frequently_leave`: when
  what is true of a sequence changes;
* `Network.Endless`: a run that does not end, with what is true at every turn;
* `Network.Fills`, `Network.Flows`: a link is filled, once or again and again;
* `Endless.asked_between`: a node comes into the phase in which it is asked for
  output when a node that it feeds finds the link empty;
* `Endless.flows_up`, `Endless.flows_down`: a link that is filled again and again
  has such links above it and below it.
-/
import Mathlib.Order.Filter.AtTopBot.Basic
import Mathlib.Order.Filter.Finite
import MediaGraph.Proofs.Endless.Turns

namespace MediaGraph

open Filter

/-! ### Sequences -/

section Sequences

variable {P : ℕ → Prop} {i j : ℕ}

/-- What becomes true becomes true at some step. -/
lemma exists_change (hij : i ≤ j) (hi : ¬ P i) (hj : P j) :
    ∃ k, i ≤ k ∧ k < j ∧ ¬ P k ∧ P (k + 1) := by
  induction j, hij using Nat.le_induction with
  | base => exact absurd hj hi
  | succ j hij ih =>
      by_cases hP : P j
      · obtain ⟨k, hik, hkj, hk⟩ := ih hP
        exact ⟨k, hik, by omega, hk⟩
      · exact ⟨j, hij, by omega, hP, hj⟩

/-- What is true became true for the last time at some step. -/
lemma exists_last_change (hij : i ≤ j) (hi : ¬ P i) (hj : P j) :
    ∃ k, i ≤ k ∧ k < j ∧ ¬ P k ∧ ∀ l, k < l → l ≤ j → P l := by
  induction j, hij using Nat.le_induction with
  | base => exact absurd hj hi
  | succ j hij ih =>
      by_cases hP : P j
      · obtain ⟨k, hik, hkj, hk, hl⟩ := ih hP
        refine ⟨k, hik, by omega, hk, fun l hkl hlj => ?_⟩
        rcases Nat.lt_or_eq_of_le hlj with hlt | rfl
        · exact hl l hkl (by omega)
        · exact hj
      · refine ⟨j, hij, by omega, hP, fun l hkl hlj => ?_⟩
        rwa [show l = j + 1 by omega]

/-- What happens after a step happens for the first time at some step. -/
lemma exists_first (hij : i < j) (hj : P j) :
    ∃ k, i < k ∧ k ≤ j ∧ P k ∧ ∀ l, i < l → l < k → ¬ P l := by
  induction j using Nat.strong_induction_on with
  | _ j ih =>
      by_cases h : ∃ l, i < l ∧ l < j ∧ P l
      · obtain ⟨l, hil, hlj, hl⟩ := h
        obtain ⟨k, hik, hkl, hk⟩ := ih l hlj hil hl
        exact ⟨k, hik, by omega, hk⟩
      · exact ⟨j, hij, le_rfl, hj, fun l hil hlj hl => h ⟨l, hil, hlj, hl⟩⟩

/-- What becomes true again and again becomes false again and again. -/
lemma frequently_leave (h : ∃ᶠ i in atTop, ¬ P i ∧ P (i + 1)) :
    ∃ᶠ i in atTop, P i ∧ ¬ P (i + 1) := by
  rw [frequently_atTop] at h ⊢
  intro a
  obtain ⟨i, hai, -, hi⟩ := h a
  obtain ⟨j, hij, hj, -⟩ := h (i + 1)
  obtain ⟨k, hik, -, hk, hk'⟩ :=
    exists_change (P := fun k => ¬ P k) hij (not_not_intro hi) hj
  exact ⟨k, by omega, not_not.mp hk, hk'⟩

end Sequences

/-! ### Endless runs -/

namespace Network

variable {τ : Type}

/-- A run that does not end, with what is true at every turn. -/
structure Endless (d : Description) (N : Network) (D : NodeId)
    (t : ℕ → Flow (Adapter τ)) (turn : ℕ → NodeId) : Prop where
  realized : d.Realized N
  acyclic : d.Acyclic
  described : ∀ i, (turn i).index < d.nodes.length
  queued : ∀ i, (t i).queued (turn i) = true
  turns : ∀ i, N.Turns (some D) (turn i) (t i) (t (i + 1))
  counting : ∀ i, N.Counting (t i)
  staffed : ∀ i, d.Staffed (t i)
  /-- Only nodes that reach a node below the driver wait for a turn. -/
  joined : ∀ i n, (t i).queued n = true →
    ∃ r, Relation.ReflTransGen N.Feeds D r ∧ Relation.ReflTransGen N.Feeds n r
  /-- After the first turn, a node that waits to check its inputs asked for all
  that are drained. -/
  asked : ∀ i n, (t (i + 1)).queued n = true → (t (i + 1)).phase n = .checkInput →
    ∀ q ∈ N.inputs n, (N.feeder q).isSome = true →
      ((t (i + 1)).slot q).status ≠ .ok

/-- The turn `i` is that of a node in a phase. -/
def At (t : ℕ → Flow (Adapter τ)) (turn : ℕ → NodeId) (n : NodeId) (φ : Phase)
    (i : ℕ) : Prop :=
  turn i = n ∧ (t i).phase n = φ

/-- A node is called in the turn `i`. -/
def Calls (t : ℕ → Flow (Adapter τ)) (turn : ℕ → NodeId) (n : NodeId) (i : ℕ) :
    Prop :=
  At t turn n .input i ∨ At t turn n .output i

/-- The turn `i` puts data on the link to an input. -/
def Fills (t : ℕ → Flow (Adapter τ)) (p : PortId) (i : ℕ) : Prop :=
  (t i).full p = false ∧ (t (i + 1)).full p = true

/-- The link to an input is filled again and again. -/
def Flows (t : ℕ → Flow (Adapter τ)) (p : PortId) : Prop :=
  ∃ᶠ i in atTop, Fills t p i

namespace Endless

variable {d : Description} {N : Network} {D : NodeId}
  {t : ℕ → Flow (Adapter τ)} {turn : ℕ → NodeId} {n c x : NodeId} {p q : PortId}
  {i j : ℕ}

/-! ### Links -/

/-- A link is filled by a node that makes output. -/
lemma makes (h : N.Endless d D t turn) (hp : p ∈ N.inputs c)
    (hf : N.feeder p = some x) (hi : Fills t p i) :
    turn i = x ∧ N.Makes x (t i) (t (i + 1)) := by
  obtain ⟨hx, hmakes⟩ := (h.turns i).fills h.realized.proper hp hi.1 hi.2
  obtain rfl : x = turn i := Option.some.inj (hf.symm.trans hx)
  exact ⟨rfl, hmakes⟩

/-- A link that is filled again and again is linked. -/
lemma exists_feeder (h : N.Endless d D t turn) (hp : p ∈ N.inputs c)
    (hflows : Flows t p) : ∃ x, N.feeder p = some x := by
  obtain ⟨i, hi⟩ := hflows.exists
  exact ⟨_, ((h.turns i).fills h.realized.proper hp hi.1 hi.2).1⟩

/-- A link that is drained again and again is filled again and again, and the
other way round. -/
lemma flows_iff : Flows t p ↔
    ∃ᶠ i in atTop, (t i).full p = true ∧ (t (i + 1)).full p = false := by
  simp only [Flows, Fills, ← Bool.not_eq_true]
  constructor
  · exact fun h => frequently_leave (P := fun i => (t i).full p = true) h
  · intro h
    have := frequently_leave (P := fun i => ¬ (t i).full p = true)
      (h.mono fun i hi => ⟨not_not_intro hi.1, hi.2⟩)
    exact this.mono fun i hi => ⟨hi.1, not_not.mp hi.2⟩

/-- A link that is found full again and again stays so, unless it is filled again
and again. -/
lemma eventually_full (hno : ¬ Flows t p)
    (hfull : ∃ᶠ i in atTop, (t i).full p = true) :
    ∀ᶠ i in atTop, (t i).full p = true := by
  rw [flows_iff, not_frequently, eventually_atTop] at hno
  obtain ⟨a, ha⟩ := hno
  obtain ⟨b, hab, hb⟩ := (frequently_atTop.mp hfull) a
  refine eventually_atTop.mpr ⟨b, fun i hi => ?_⟩
  induction i, hi using Nat.le_induction with
  | base => exact hb
  | succ i hi ih =>
      have := ha i (by omega)
      simpa [ih] using this

/-- What a node requires flows if its output does. -/
lemma flows_up (h : N.Endless d D t turn) (hp : p ∈ N.inputs c)
    (hf : N.feeder p = some x) (hflows : Flows t p) (hq : q ∈ N.inputs x)
    (hlinked : (N.feeder q).isSome = true) (ho : N.optional q = false) :
    Flows t q := by
  rw [flows_iff]
  refine hflows.mono fun i hi => ?_
  obtain ⟨-, hmakes⟩ := h.makes hp hf hi
  exact ⟨hmakes.required q hq hlinked ho, hmakes.emptied q hq hlinked⟩

/-- Some input of a node flows if its output does. -/
lemma exists_flows_up (h : N.Endless d D t turn) (hp : p ∈ N.inputs c)
    (hf : N.feeder p = some x) (hflows : Flows t p) (hin : N.inputs x ≠ []) :
    ∃ q ∈ N.inputs x, Flows t q := by
  have hsome : ∃ᶠ i in atTop, ∃ q ∈ N.inputs x,
      (t i).full q = true ∧ (t (i + 1)).full q = false := by
    refine hflows.mono fun i hi => ?_
    obtain ⟨-, hmakes⟩ := h.makes hp hf hi
    obtain ⟨q, hq, hlinked, hfull⟩ := hmakes.used.resolve_left hin
    exact ⟨q, hq, hfull, hmakes.emptied q hq hlinked⟩
  obtain ⟨q, hq, hfreq⟩ :=
    (frequently_exists_finite (N.inputs x).finite_toSet).mp hsome
  exact ⟨q, hq, flows_iff.mpr hfreq⟩

/-- The output of a node flows if some of its inputs does, unless it is a
sink. -/
lemma flows_down (h : N.Endless d D t turn) (hp : p ∈ N.inputs c)
    (hflows : Flows t p) :
    (∃ q ∈ N.targets c, Flows t q) ∨ d.isSink c = true := by
  rw [or_iff_not_imp_right]
  intro hsink
  have hsome : ∃ᶠ i in atTop, ∃ q ∈ N.targets c, Fills t q i := by
    refine (flows_iff.mp hflows).mono fun i hi => ?_
    obtain ⟨rfl, hout | ⟨x, hx, hk⟩⟩ :=
      (h.turns i).drains h.realized.proper hp hi.1 hi.2
    · exact hout
    · obtain ⟨spec, hspec, hkind⟩ := (h.staffed i).exists_spec hx
      rw [hk] at hkind
      exact absurd
        (Description.isSink_iff.mpr ⟨spec, hspec, (Option.some.inj hkind).symm⟩)
        hsink
  exact (frequently_exists_finite (N.targets c).finite_toSet).mp hsome

/-- Whoever is at the end of a link that flows takes turns again and again. -/
lemma frequently_turn (h : N.Endless d D t turn) (hp : p ∈ N.inputs c)
    (hflows : Flows t p) : ∃ᶠ i in atTop, turn i = c :=
  (flows_iff.mp hflows).mono fun i hi =>
    ((h.turns i).drains h.realized.proper hp hi.1 hi.2).1.symm

/-! ### Requests -/

/-- The turn `i` asks `n` for output because a link that `n` feeds is empty. -/
def Asks (N : Network) (D : NodeId) (t : ℕ → Flow (Adapter τ))
    (turn : ℕ → NodeId) (n : NodeId) (i : ℕ) : Prop :=
  At t turn (turn i) .checkInput i ∧ (D ≠ n ∨ N.async n = true) ∧
    ∃ p ∈ N.inputs (turn i), N.feeder p = some n ∧ (t i).full p = false

/-- A node comes into the phase in which it is asked for output only by being
asked. -/
lemma asked_between (h : N.Endless d D t turn) (hij : i ≤ j)
    (hi : (t i).phase n ≠ .output) (hj : (t j).phase n = .output) :
    ∃ k, i ≤ k ∧ k < j ∧ Asks N D t turn n k := by
  obtain ⟨k, hik, hkj, hk, hk'⟩ :=
    exists_change (P := fun k => (t k).phase n = .output) hij hi hj
  refine ⟨k, hik, hkj, ?_⟩
  rcases (h.turns k).phase_output h.realized.proper hk' with ⟨-, hn⟩ | ⟨hφ, hasks⟩
  · exact absurd hn hk
  · obtain ⟨p, hp, hf, hstatus, hD⟩ := asksIn_eq_true.mp hasks
    exact ⟨⟨rfl, hφ⟩, by simpa using hD, p, hp, hf,
      by simp [Flow.full, Slot.hasData, hstatus]⟩

/-- A node that is asked for output takes that turn only once for each request. -/
lemma phase_ne_output (h : N.Endless d D t turn) (hi : At t turn n .output i) :
    (t (i + 1)).phase n ≠ .output := by
  intro hn
  rcases (h.turns i).phase_output h.realized.proper hn with ⟨hne, -⟩ | ⟨hφ, -⟩
  · exact hne hi.1.symm
  · rw [hi.1, hi.2] at hφ
    cases hφ

/-- A node that makes output again and again on request is asked again and
again. -/
lemma frequently_asks (h : N.Endless d D t turn)
    (hout : ∃ᶠ i in atTop, At t turn n .output i) :
    ∃ᶠ i in atTop, Asks N D t turn n i := by
  rw [frequently_atTop] at hout ⊢
  intro a
  obtain ⟨i, hai, hi⟩ := hout a
  obtain ⟨j, hij, hj⟩ := hout (i + 1)
  obtain ⟨k, hik, -, hk⟩ := h.asked_between hij (h.phase_ne_output hi) hj.2
  exact ⟨k, by omega, hk⟩

/-- A node comes into a phase after a call only by a call; the driver that
processed its inputs does not wait for its next turn. -/
lemma phase_ne_of_no_call (h : N.Endless d D t turn) {φ : Phase}
    (hφ : φ = .checkInput ∨ φ = .checkOutput) (hij : i ≤ j)
    (hi : (t i).queued n = true → (t i).phase n ≠ φ)
    (hno : ∀ k, i ≤ k → k < j → turn k = n → (t k).phase n ≠ .output ∧
      ((t k).phase n = .input → D = n)) :
    (t j).queued n = true → (t j).phase n ≠ φ := by
  induction j, hij using Nat.le_induction with
  | base => exact hi
  | succ j hij ih =>
      intro hqueued
      have hprev := ih fun k hik hkj => hno k hik (by omega)
      rcases eq_or_ne n (turn j) with rfl | hn
      · obtain ⟨hout, hin⟩ := hno j hij (by omega) rfl
        rcases (h.turns j).queued_self h.realized.proper hqueued with
          ⟨⟨hinput, hD⟩ | houtput, -⟩
        · exact absurd (congrArg some (hin hinput)) hD
        · exact absurd houtput hout
      · rcases (h.turns j).queued_other h.realized.proper hn hqueued with
          ⟨hq, hp⟩ | ⟨-, -, hp⟩ | ⟨-, hp⟩
        · rw [hp]
          exact hprev hq
        · rw [hp]
          rcases hφ with rfl | rfl <;> simp
        · rw [hp]
          rcases hφ with rfl | rfl <;> simp

end Endless

end Network

end MediaGraph

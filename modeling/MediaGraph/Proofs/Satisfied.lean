/-
Inputs that are processed hold data.

* `Network.Vouched`: a counted input holds data, unless nothing was said about
  it since the graph was built and its node was pulled;
* `Vouched.call`, `Vouched.checkIn`, `Vouched.checkOut`: every part of a turn
  keeps that;
* `Realized.counted_of_complete`: a node that is about to process its inputs
  counts all that it requires;
* `Description.Reliable`: both, with producers that have buffers and sinks that
  ask for data; every activation keeps it;
* `Graph.input_satisfied`: all required and linked inputs that a sink processes
  hold data, and so do those of a node that was never pulled;
* `Graph.not_satisfied`: that is not true of a mixer that was pulled.
-/
import MediaGraph.Proofs.Counting
import MediaGraph.Proofs.Course
import MediaGraph.Proofs.Observation

namespace MediaGraph

/-- A slot about which nothing was said is as it was made. -/
def Slot.Pristine (c : Slot) : Prop := c.status = .ok → c = {}

namespace Network

variable {σ τ : Type} {N : Network} {D : Option NodeId} {n : NodeId}
  {pulled : NodeId → Prop}

/-! ### Inputs about which nothing was said -/

section Acts

variable {slot slot' : PortId → Slot} {x x' : Adapter τ} {side : Side}
  {r : Except ProcessError Verdict} {q : PortId}

/-- A call keeps slots pristine. -/
lemma Acts.pristine (h : N.Acts n slot x side r slot' x') (hq : (slot q).Pristine) :
    (slot' q).Pristine := by
  have hdrop : ∀ c : Slot, Slot.Pristine { c with buffer := none } :=
    fun c hc => Slot.ext hc rfl
  have htold : ∀ {c : Slot}, c.status ≠ .ok → c.Pristine := fun hne hc => absurd hc hne
  have htake : (slot q).take.2.Pristine := by
    rw [Slot.take]
    split
    · exact htold (by simp [Slot.request])
    · exact hq
  have hrequest : (Mixer.requestIfDrained (slot q)).Pristine := by
    rw [Mixer.requestIfDrained]
    split
    · exact hq
    · exact htold (by simp [Slot.request])
  have htaken : (N.onInputs n (·.take.2) slot q).Pristine := onInputs_cases hq htake
  cases h with
  | notSupported | mute | keep | deaf | idle | hold => exact hq
  | dry => exact update_cases hq fun _ => hdrop _
  | produce => exact update_cases hq fun _ => htold (by simp [Slot.provide])
  | consume | want => exact update_cases hq fun _ => htold (by simp [Slot.request])
  | request => exact onInputs_cases hq hrequest
  | spill => exact update_cases htaken fun _ => hdrop _
  | mix => exact update_cases htaken fun _ => htold (by simp [Slot.provide])

end Acts

/-! ### Counts that can be relied on -/

/-- A counted input holds data, unless its slot is as it was made and its node was
pulled. Slots about which nothing was said are as they were made, and a node that
waits to check such an input was pulled. -/
structure Vouched (N : Network) (pulled : NodeId → Prop) (s : Flow σ) : Prop where
  counted : ∀ {n p}, p ∈ N.inputs n → s.counted p = true →
    s.full p = true ∨ (pulled n ∧ s.slot p = {})
  pristine : ∀ {n p}, p ∈ N.inputs n → (s.slot p).Pristine
  checked : ∀ {n p}, p ∈ N.inputs n → (N.feeder p).isSome = true →
    s.queued n = true → s.phase n = .checkInput → (s.slot p).status = .ok → pulled n

namespace Vouched

variable {s : Flow σ}

/-- Fewer inputs may be counted, and fewer nodes may wait to check theirs. -/
lemma of_le {t : Flow σ} (h : N.Vouched pulled s) (hslot : t.slot = s.slot)
    (hcounted : ∀ p, t.counted p = true → s.counted p = true)
    (hwaits : ∀ m, t.queued m = true → t.phase m = .checkInput →
      s.queued m = true ∧ s.phase m = .checkInput) : N.Vouched pulled t where
  counted hp hc := by
    rw [Flow.full, hslot]
    exact h.counted hp (hcounted _ hc)
  pristine hp := by
    rw [hslot]
    exact h.pristine hp
  checked hp hl hm hφ := by
    rw [hslot]
    exact h.checked hp hl (hwaits _ hm hφ).1 (hwaits _ hm hφ).2

/-- A node leaves the queue. -/
lemma dequeue (h : N.Vouched pulled s) (n : NodeId) :
    N.Vouched pulled (s.dequeue n).countTurn :=
  h.of_le rfl (fun _ hc => hc) fun _ hm hφ => ⟨Flow.queued_of_dequeue hm, hφ⟩

/-- An announcement counts inputs that hold data. -/
lemma announce (hN : N.Proper) (h : N.Vouched pulled s) {c : NodeId} {p : PortId}
    (hp : p ∈ N.inputs c) : N.Vouched pulled (N.announce s p) := by
  rw [N.announce_eq hN hp]
  refine ⟨fun {m q} hq hc => ?_, h.pristine, fun {m q} hq hl hm hφ => ?_⟩
  · simp only [Function.update_apply] at hc
    split at hc
    · rename_i he
      subst he
      rcases Bool.or_eq_true_iff.mp hc with hc | hc
      · exact h.counted hq hc
      · simp only [isNew, Bool.and_eq_true] at hc
        exact Or.inl hc.2
    · exact h.counted hq hc
  · simp only at hm hφ
    rcases eq_or_ne m c with rfl | hmc
    · rw [Function.update_self] at hm
      rw [if_pos hm, Function.update_self] at hφ
      cases hφ
    · rw [Function.update_of_ne hmc] at hm
      refine h.checked hq hl hm ?_
      split at hφ
      · rwa [Function.update_of_ne hmc] at hφ
      · exact hφ

/-- Announcing the outputs of a node counts inputs that hold data. -/
lemma checkOut (hN : N.Proper) (h : N.Vouched pulled s) (n : NodeId) :
    N.Vouched pulled (N.checkOut n s) :=
  checkOut_induction hN h fun _ _ _ _ hp h => h.announce hN hp

/-- A check counts untouched inputs, which it finds only at a node that was
pulled. -/
lemma checkIn (hN : N.Proper) (h : N.Vouched pulled s) (hn : s.queued n = true)
    (hφ : s.phase n = .checkInput) :
    N.Vouched pulled (N.checkIn D n (s.dequeue n).countTurn) := by
  rw [checkIn_eq]
  refine ⟨fun {m p} hp hc => ?_, h.pristine, fun {m p} hp hl hm hφ' => ?_⟩
  · simp only at hc
    split at hc
    · rename_i hpn
      obtain rfl := hN.owner_unique hp hpn
      simp only [isUntouched, Bool.and_eq_true, decide_eq_true_eq] at hc
      exact Or.inr ⟨h.checked hp hc.1.1 hn hφ hc.1.2, h.pristine hp hc.1.2⟩
    · exact h.counted hp hc
  · simp only at hm hφ'
    split at hφ'
    · cases hφ'
    · rename_i hasks
      have hm : (s.dequeue n).countTurn.queued m = true := by simpa [hasks] using hm
      exact h.checked hp hl (Flow.queued_of_dequeue hm) hφ'

/-- A call of a node leaves its inputs counted only if they hold data, and lets it
wait for input only after it asked for data. -/
lemma call {s : Flow (Adapter τ)} (hN : N.Proper) (h : N.Vouched pulled s)
    {x x' : Adapter τ} {side : Side} {r : Except ProcessError Verdict}
    {slot : PortId → Slot} (hacts : N.Acts n s.slot x side r slot x')
    (hqueued : s.queued n = false) :
    N.Vouched pulled (report D n side (N.conclude n side r slot x' s)).flow := by
  have hslot : (report D n side (N.conclude n side r slot x' s)).flow.slot = slot := by
    rw [slot_report, slot_conclude hN]
  refine ⟨fun {m q} hq hc => ?_, fun {m q} hq => ?_, fun {m q} hq hl hm hφ hok => ?_⟩
  · rw [Flow.full, hslot]
    rw [counted_report, counted_conclude hN] at hc
    split at hc
    · simp only [Bool.and_eq_true, holds] at hc
      exact Or.inl hc.2.2.2
    · rename_i hqn
      rcases hacts.outer hqn with hst | hst
      · rcases h.counted hq hc with hfull | ⟨hp, hnew⟩
        · left
          rwa [Slot.hasData, hst]
        · exact Or.inr ⟨hp, hacts.pristine (h.pristine hq) (by rw [hst, hnew])⟩
      · left
        simp [Slot.hasData, hst]
  · rw [hslot]
    exact hacts.pristine (h.pristine hq)
  · rw [hslot] at hok
    rcases waits_report hN hqueued hm with ⟨rfl, verdict, rfl, hphase⟩ |
      ⟨-, hwaits, hphase⟩
    · rw [hphase] at hφ
      cases verdict with
      | needInput => exact absurd hok (hacts.asked hq hl)
      | haveOutput => cases hφ
    · refine h.checked hq hl hwaits (hphase.symm.trans hφ) ?_
      rcases hacts.kept q with hk | hk | hk
      · rw [← hk, hok]
      · simp [hk] at hok
      · simp [hk] at hok

/-- A turn keeps the counts vouched for. -/
lemma serves {s : Flow (Adapter τ)} {v : FlowTurn (Adapter τ)} (hN : N.Proper)
    (h : N.Vouched pulled s) (hn : s.queued n = true) (hv : N.Serves D n s v) :
    N.Vouched pulled v.flow := by
  cases hv with
  | call _ _ hacts => exact (h.dequeue n).call hN hacts (Function.update_self ..)
  | stuck =>
      refine (h.dequeue n).of_le rfl (fun p hc => ?_) fun m hm hφ => ⟨hm, hφ⟩
      simp only [reset] at hc
      split at hc
      · cases hc
      · exact hc
  | check hφ => exact (h.checkIn hN hn hφ).checkOut hN n
  | announce => exact (h.dequeue n).checkOut hN n

/-- An activation starts with counts that are vouched for. -/
lemma start (h : N.Vouched pulled s) (hqueued : ∀ m, s.queued m = false) {mode : Mode}
    (hpull : mode = .pull → pulled n) : N.Vouched pulled (s.start mode n) where
  counted := h.counted
  pristine := h.pristine
  checked {m p} _ _ hm hφ _ := by
    obtain ⟨rfl, hphase⟩ := Flow.waits_start hqueued hm
    rw [hphase] at hφ
    cases mode with
    | pull => exact hpull rfl
    | push => cases hφ

end Vouched

end Network

/-! ### Complete counts -/

/-- Members of a list that satisfy more are as many only if they are the same. -/
lemma of_countP_eq {α : Type*} {l : List α} {p q : α → Bool}
    (hpq : ∀ x ∈ l, p x = true → q x = true) (h : l.countP p = l.countP q) {x : α}
    (hx : x ∈ l) (hq : q x = true) : p x = true := by
  have hboth : (l.countP fun x => q x && p x) = l.countP p :=
    List.countP_congr fun x hx => by simpa using hpq x hx
  rw [l.countP_eq_countP_filter_add q p, List.countP_filter, List.countP_filter,
    hboth] at h
  have hnone : (l.countP fun x => q x && !p x) = 0 := by omega
  have := List.countP_eq_zero.mp hnone x hx
  simpa [hq] using this

namespace Description

variable {τ : Type} {d : Description} {N : Network} {pulled : NodeId → Prop}
  {s : Flow (Adapter τ)} {n : NodeId}

/-- A node that does not say how many inputs it requires requires all that are
not optional. -/
lemma Realized.required_eq_countP (h : d.Realized N) {spec : NodeSpec}
    (hspec : d.nodes[n.index]? = some spec) (hreq : spec.requiredIn = none) :
    N.required n = (N.inputs n).countP fun p => !N.optional p := by
  have hmap : (N.inputs n).map N.optional =
      (List.range spec.inputCount).map spec.isOptional := by
    refine List.ext_getElem? fun k => ?_
    rw [List.getElem?_map, List.getElem?_map]
    rcases hk : (N.inputs n)[k]? with _ | p
    · rw [List.getElem?_eq_none_iff, h.inputs hspec] at hk
      simp [hk]
    · have hlt := (List.getElem?_eq_some_iff.mp hk).1
      rw [h.inputs hspec] at hlt
      simp [hlt, h.optional hspec hk]
  calc N.required n
      = (List.range spec.inputCount).countP fun i => !spec.isOptional i := by
        rw [h.required hspec, NodeSpec.requiredCount, hreq, Option.getD_none]
    _ = ((List.range spec.inputCount).map spec.isOptional).countP (! ·) := by
        rw [List.countP_map]
        rfl
    _ = ((N.inputs n).map N.optional).countP (! ·) := by rw [hmap]
    _ = (N.inputs n).countP fun p => !N.optional p := by
        rw [List.countP_map]
        rfl

/-- A node that waits to process its inputs counts all that are not optional, if
no node says how many it requires. -/
lemma Realized.counted_of_complete (h : d.Realized N) (hs : N.Counting s)
    (hplain : ∀ spec ∈ d.nodes, spec.requiredIn = none) (hn : s.queued n = true)
    (hφ : s.phase n = .input) {p : PortId} (hp : p ∈ N.inputs n)
    (ho : N.optional p = false) : s.counted p = true := by
  obtain ⟨spec, hspec⟩ := h.exists_spec_of_input hp
  have hrequired := h.required_eq_countP hspec (hplain spec (List.mem_of_getElem? hspec))
  rw [← (hs.complete hn hφ).2, hs.ready n] at hrequired
  exact of_countP_eq (fun q hq hc => by simp [(hs.required hq hc).2]) hrequired hp
    (by simp [ho])

/-! ### Turns and activations -/

/-- What is known of the flow of a graph that was built and activated. -/
structure Reliable (d : Description) (N : Network) (pulled : NodeId → Prop)
    (s : Flow (Adapter τ)) : Prop where
  sound : d.Sound N s
  counting : N.Counting s
  vouched : N.Vouched pulled s

/-- An untouched flow is reliable. -/
lemma Untouched.reliable (hN : d.Realized N) (h : d.Untouched N s) :
    d.Reliable N pulled s where
  sound := h.sound hN
  counting := h.counting
  vouched := {
    counted := fun _ hc => by simp [h.counted] at hc
    pristine := fun {n p} hp hok => by
      rw [h.slot hp] at hok ⊢
      split
      · rename_i hs
        simp [hs, Slot.request] at hok
      · rfl
    checked := fun _ _ hq => by simp [h.queued] at hq }

namespace Reliable

/-- Fewer nodes may wait for a turn. -/
lemma of_le {t : Flow (Adapter τ)} (h : d.Reliable N pulled s)
    (hqueued : ∀ m, t.queued m = true → s.queued m = true) (hphase : t.phase = s.phase)
    (hready : t.ready = s.ready) (hcounted : t.counted = s.counted)
    (hslot : t.slot = s.slot) (hprocessor : t.processor = s.processor) :
    d.Reliable N pulled t where
  sound := h.sound.congr hslot hprocessor
  counting := h.counting.of_le hqueued hphase hready hcounted hslot
  vouched := h.vouched.of_le hslot (by simp [hcounted]) fun m hm hφ =>
    ⟨hqueued m hm, by rwa [hphase] at hφ⟩

/-- A turn keeps a flow reliable. -/
lemma serve [Processor τ] (hN : d.Realized N) (h : d.Reliable N pulled s)
    (D : Option NodeId) (hn : s.queued n = true) :
    d.Reliable N pulled (N.serve D n s).flow := by
  refine ⟨h.sound.serve hN D n, ?_, ?_⟩
  all_goals rcases h.sound.staffed.serves hN D n with hserves | hidle
  · exact h.counting.serves hN.proper hserves
  · rw [hidle]
    exact (h.counting.dequeue n).of_le (fun _ hm => hm) rfl rfl rfl rfl
  · exact h.vouched.serves hN.proper hn hserves
  · rw [hidle]
    exact (h.vouched.dequeue n).of_le rfl (fun _ hc => hc) fun _ hm hφ => ⟨hm, hφ⟩

/-- An activation starts with a reliable flow. -/
lemma start (h : d.Reliable N pulled s) (hqueued : ∀ m, s.queued m = false)
    {mode : Mode} (hpull : mode = .pull → pulled n) :
    d.Reliable N pulled (s.start mode n) where
  sound := h.sound.congr rfl rfl
  counting := h.counting.start hqueued mode n
  vouched := h.vouched.start hqueued hpull

/-- An activation leaves a reliable flow behind. -/
lemma ends [Processor τ] (hN : d.Realized N) (h : d.Reliable N pulled s)
    (hqueued : ∀ m, s.queued m = false) {mode : Mode} (hpull : mode = .pull → pulled n)
    {budget : Nat} {r : Except ActivationError Unit} {calls : List Callback}
    {t : Flow (Adapter τ)} (ht : N.Ends (some n) (s.start mode n) budget r calls t) :
    d.Reliable N pulled t.clear :=
  (ht.invariant (h.start hqueued hpull) fun _ _ hm hu => hu.serve hN (some n) hm).of_le
    (fun _ hm => nomatch hm) rfl rfl rfl rfl rfl

/-- A required and linked input of a node that waits to process its inputs holds
data, unless its node is not a sink and was pulled, and nothing was said about the
input since the graph was built. -/
lemma full_or_untouched (hN : d.Realized N) (h : d.Reliable N pulled s)
    (hplain : ∀ spec ∈ d.nodes, spec.requiredIn = none) (hn : s.queued n = true)
    (hφ : s.phase n = .input) {p : PortId} (hp : p ∈ N.inputs n)
    (ho : N.optional p = false) (hl : (N.feeder p).isSome = true) :
    s.full p = true ∨ (pulled n ∧ d.isSink n = false ∧ s.slot p = {}) := by
  have hcounted := hN.counted_of_complete h.counting hplain hn hφ hp ho
  rcases h.vouched.counted hp hcounted with hfull | ⟨hpulled, hslot⟩
  · exact Or.inl hfull
  · refine Or.inr ⟨hpulled, ?_, hslot⟩
    -- a linked sink has data or asks for it
    rw [← Bool.not_eq_true]
    intro hsink
    have := h.sound.demanding hsink hp hl
    simp [hslot] at this

end Reliable

end Description

/-! ### Activations of built graphs -/

namespace Graph

/-- All required and linked inputs of a node hold data. -/
def Satisfied {σ : Type} (g : Graph σ) (n : NodeId) : Prop :=
  ∀ p ∈ g.inputsOf n, ∀ port, g.ports.get? p = some port → port.isRequired = true →
    port.link.isSome = true → g.hasData p = true

variable {τ : Type} {d : Description} {a : Assembly τ} {g : Graph (Adapter τ)}

/-- A required and linked input of a graph in its network. -/
lemma Shows.isRequired {Λ : Layout} {D : Option NodeId} {s : Flow (Adapter τ)}
    (hΛ : Λ.Proper) (h : g.Shows Λ D s) {p : PortId} {port : Port}
    (hp : g.ports.get? p = some port) (hreq : port.isRequired = true)
    (hl : port.link.isSome = true) :
    Λ.network.optional p = false ∧ (Λ.network.feeder p).isSome = true := by
  constructor
  · rw [Layout.network_optional, h.port hp]
    simp only [Port.isRequired, Bool.and_eq_true] at hreq
    simpa [Port.layout] using hreq.2
  · rw [hΛ.isSome_feeder, ← h.peer?_eq, peer?, hp, Option.bind_some, Port.peer?,
      Option.isSome_map, hl]

/-- When the inputs of a node are processed, in any activation of a graph that was
built from a description that overrides no number of required inputs, after any
activations: all required and linked inputs hold data if the node is a sink or was
never pulled. Otherwise nothing was said since the graph was built about those that
do not. -/
theorem input_satisfied [Processor τ] {pulled : NodeId → Prop}
    (hok : Assembly.build d = .ok a) (hplain : ∀ spec ∈ d.nodes, spec.requiredIn = none)
    (hg : a.graph.Activated (fun mode n _ => mode = .pull → pulled n) g)
    {budget : Nat} {mode : Mode} {n m : NodeId} (hpull : mode = .pull → pulled n)
    {t : Graph (Adapter τ)} {turn : Turn (Adapter τ)}
    {r : Except ProcessError Verdict} (hturn : (t, turn) ∈ g.turns budget mode n)
    (hcall : turn.callback = some ⟨m, .input, r⟩) :
    (d.isSink m = true ∨ ¬ pulled m → t.Satisfied m) ∧
      ∀ p ∈ t.inputsOf m, ∀ port, t.ports.get? p = some port →
        port.isRequired = true → port.link.isSome = true →
          t.hasData p = true ∨ t.slotOf? p = some {} := by
  obtain ⟨Λ, s₀, hΛ, h₀, hN, huntouched⟩ := Assembly.shows_of_build hok
  obtain ⟨s, hs, hreliable, hnone⟩ := Activated.shows
    (P := fun s => d.Reliable Λ.network pulled s ∧ ∀ n, s.queued n = false) hΛ h₀
    ⟨huntouched.reliable hN, huntouched.queued⟩
    (fun hP hpull hends => ⟨hP.1.ends hN hP.2 hpull hends, fun _ => rfl⟩) hg
  obtain ⟨ht, hturned⟩ := takesTurns_of_mem_turns hturn
  rcases hnode : g.nodes.get? n with _ | node
  · simp [turns, hnode] at hturn
  · obtain ⟨u, hu, hureliable⟩ := ht.invariant hΛ (hs.start hΛ (hs.node hnode) mode)
      (hreliable.start hnone hpull) fun _ _ hm hu => hu.serve hN (some n) hm
    obtain ⟨m', hm, hserved⟩ := hu.turn? hΛ hturned
    rw [hserved.callback] at hcall
    obtain ⟨rfl, hφ⟩ := Network.phase_of_callback hcall
    have hkey : ∀ p ∈ t.inputsOf m, ∀ port, t.ports.get? p = some port →
        port.isRequired = true → port.link.isSome = true →
        t.hasData p = true ∨
          (pulled m ∧ d.isSink m = false ∧ t.slotOf? p = some {}) := by
      intro p hp port hport hreq hl
      rw [hu.inputsOf_eq] at hp
      obtain ⟨ho, hf⟩ := hu.isRequired hΛ hport hreq hl
      rw [hu.hasData_eq hΛ hp, hf, Bool.true_and, hu.slotOf?_input hΛ hp, Network.linked?,
        if_pos hf, Option.map_some, Option.some.injEq]
      exact hureliable.full_or_untouched hN hplain hm hφ hp ho hf
    refine ⟨fun hnot p hp port hport hreq hl => ?_, fun p hp port hport hreq hl => ?_⟩
    · rcases hkey p hp port hport hreq hl with hdata | ⟨hpulled, hsink, -⟩
      · exact hdata
      · rcases hnot with hsink' | hnot
        · simp [hsink'] at hsink
        · exact absurd hpulled hnot
    · exact (hkey p hp port hport hreq hl).imp_right fun h => h.2.2

/-- A turn in which a node processes its inputs, found in a list of turns. -/
lemma exists_mem_of_any {σ : Type} {l : List (Graph σ × Turn σ)} {m : NodeId}
    {P : Graph σ → Bool} (h : l.any (fun x => P x.1 &&
      x.2.callback.any fun c => c.node = m && c.side = .input) = true) :
    ∃ t turn r, (t, turn) ∈ l ∧ turn.callback = some ⟨m, .input, r⟩ ∧ P t = true := by
  obtain ⟨⟨t, turn⟩, hmem, h⟩ := List.any_eq_true.mp h
  obtain ⟨hP, hcall⟩ := Bool.and_eq_true_iff.mp h
  obtain ⟨⟨m', side, r⟩, hc, hcall⟩ := (Option.any_eq_true _ _).mp hcall
  simp only [Bool.and_eq_true, decide_eq_true_eq] at hcall
  obtain ⟨rfl, rfl⟩ := hcall
  exact ⟨t, turn, r, hmem, hc, hP⟩

/-- Two sources that push one after the other have their buffers mixed. -/
theorem input_satisfied_fanIn :
    ∃ a : Assembly Empty, Assembly.build Catalogue.fanIn = .ok a ∧
      ∃ t turn r, (t, turn) ∈ (a.graph.push ⟨0⟩).graph.turns turnLimit .push ⟨1⟩ ∧
        turn.callback = some ⟨⟨2⟩, .input, r⟩ ∧ t.Satisfied ⟨2⟩ := by
  have hmem : Catalogue.fanIn ∈ Catalogue.all := by simp [Catalogue.all]
  obtain ⟨a, ha, -⟩ := Catalogue.exists_build hmem
  have hrun : (Assembly.build (τ := Empty) Catalogue.fanIn).toOption.any (fun a =>
      ((a.graph.push ⟨0⟩).graph.turns turnLimit .push ⟨1⟩).any fun x => true &&
        x.2.callback.any fun c => c.node = ⟨2⟩ && c.side = .input) = true := by
    decide +kernel
  rw [ha, Except.toOption, Option.any_some] at hrun
  obtain ⟨t, turn, r, hturn, hcall, -⟩ := exists_mem_of_any (P := fun _ => true) hrun
  have hg : a.graph.Activated (fun mode _ _ => mode = .pull → False)
      (a.graph.push ⟨0⟩).graph := .activate turnLimit .start (by simp)
  exact ⟨a, ha, t, turn, r, hturn, hcall, (input_satisfied ha
    (by simp [Catalogue.fanIn]) hg (by simp) hturn hcall).1 (Or.inr not_false)⟩

/-- Not all required and linked inputs that are processed hold data: a mixer that
was pulled counts the inputs about which nothing was said, and processes them when
one of its two sources pushes. -/
theorem not_satisfied :
    ¬ ∀ (d : Description) (a : Assembly Empty) (g : Graph (Adapter Empty))
        (mode : Mode) (n m : NodeId) (t : Graph (Adapter Empty))
        (turn : Turn (Adapter Empty)) (r : Except ProcessError Verdict),
      d.validate = .ok () → (∀ spec ∈ d.nodes, spec.requiredIn = none) →
      Assembly.build d = .ok a →
      a.graph.Activated (fun mode n _ => d.Allows mode n.index) g →
      d.Allows mode n.index → (t, turn) ∈ g.turns turnLimit mode n →
      turn.callback = some ⟨m, .input, r⟩ → t.Satisfied m := by
  intro h
  have hmem : Catalogue.fanIn ∈ Catalogue.all := by simp [Catalogue.all]
  obtain ⟨a, ha, -⟩ := Catalogue.exists_build hmem
  have hrun : (Assembly.build (τ := Empty) Catalogue.fanIn).toOption.any (fun a =>
      ((a.graph.pull ⟨2⟩).graph.turns turnLimit .push ⟨0⟩).any fun x =>
        (decide (⟨3⟩ ∈ x.1.inputsOf ⟨2⟩) && !x.1.hasData ⟨3⟩ &&
          (x.1.ports.get? ⟨3⟩).any fun port => port.isRequired && port.link.isSome) &&
        x.2.callback.any fun c => c.node = ⟨2⟩ && c.side = .input) = true := by
    decide +kernel
  rw [ha, Except.toOption, Option.any_some] at hrun
  obtain ⟨t, turn, r, hturn, hcall, hempty⟩ := exists_mem_of_any (P := fun t =>
    decide (⟨3⟩ ∈ t.inputsOf ⟨2⟩) && !t.hasData ⟨3⟩ &&
      (t.ports.get? ⟨3⟩).any fun port => port.isRequired && port.link.isSome) hrun
  simp only [Bool.and_eq_true, decide_eq_true_eq, Bool.not_eq_true'] at hempty
  obtain ⟨⟨hinput, hdata⟩, hport⟩ := hempty
  obtain ⟨port, hport, hrequired⟩ := (Option.any_eq_true _ _).mp hport
  obtain ⟨hreq, hlink⟩ := Bool.and_eq_true_iff.mp hrequired
  have hg : a.graph.Activated (fun mode n _ => Catalogue.fanIn.Allows mode n.index)
      (a.graph.pull ⟨2⟩).graph := .activate turnLimit .start ⟨_, rfl, by decide⟩
  have := h Catalogue.fanIn a _ .push ⟨0⟩ ⟨2⟩ t turn r (by decide +kernel)
    (by simp [Catalogue.fanIn]) ha hg ⟨_, rfl, by decide⟩ hturn hcall ⟨3⟩ hinput port
    hport hreq hlink
  simp [hdata] at this

end Graph

end MediaGraph

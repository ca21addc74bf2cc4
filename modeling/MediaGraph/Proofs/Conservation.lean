/-
No buffer is lost or duplicated between built-in nodes.

* `Adapter.made`, `Adapter.taken`: the buffers that an adapter made and those
  that it took from its inputs;
* `Network.Balanced`: what a node took and what waits unread on its inputs is
  what the nodes that feed it made;
* `Balanced.act`: a call whose effects on slots and tallies agree keeps the
  balance; `Balanced.of_make`, `Balanced.of_consume` and `Balanced.of_take` are
  the calls that move buffers;
* `Acts.balanced`, `Serves.balanced`: every call and every turn does, unless a
  sink is asked for output;
* `Graph.buffers_conserved`: the balance of every sink and of every mixer after
  any sequence of activations other than pushes of sinks.
-/
import MediaGraph.Proofs.History
import MediaGraph.Proofs.Observation
import MediaGraph.Proofs.Realization

namespace MediaGraph

variable {τ : Type}

/-! ### Tallies -/

/-- The buffers that an adapter made. -/
def Adapter.made : Adapter τ → Nat
  | .source s => s.produced
  | .mixer m => m.mixes
  | .sink _ => 0
  | .custom _ => 0

/-- The buffers that an adapter took from its inputs. -/
def Adapter.taken : Adapter τ → Nat
  | .source _ => 0
  | .mixer m => m.consumed
  | .sink s => s.received
  | .custom _ => 0

/-- The sum of a quantity over a list. -/
def total {α : Type} (f : α → Nat) (l : List α) : Nat :=
  l.foldr (fun a k => f a + k) 0

section Total

variable {α : Type} {f g : α → Nat} {l : List α}

@[simp] lemma total_nil : total f [] = 0 := rfl

@[simp] lemma total_cons {a : α} : total f (a :: l) = f a + total f l := rfl

lemma total_congr (h : ∀ a ∈ l, f a = g a) : total f l = total g l := by
  induction l with
  | nil => rfl
  | cons a l ih =>
      rw [total_cons, total_cons, h a (by simp), ih fun b hb => h b (by simp [hb])]

lemma total_add : total (fun a => f a + g a) l = total f l + total g l := by
  induction l with
  | nil => rfl
  | cons a l ih =>
      rw [total_cons, total_cons, total_cons, ih]
      omega

lemma total_filterMap {β : Type} {k : β → Option α} {l : List β} :
    total f (l.filterMap k) = total (fun b => (k b).elim 0 f) l := by
  induction l with
  | nil => rfl
  | cons b l ih =>
      rw [List.filterMap_cons, total_cons, ← ih]
      rcases k b with _ | a
      · simp
      · rfl

lemma total_eq_zero (h : ∀ a ∈ l, f a = 0) : total f l = 0 := by
  induction l with
  | nil => rfl
  | cons a l ih =>
      rw [total_cons, h a (by simp), ih fun b hb => h b (by simp [hb])]

/-- Counting is summing truth values. -/
lemma countP_eq_total (p : α → Bool) :
    l.countP p = total (fun a => (p a).toNat) l := by
  induction l with
  | nil => rfl
  | cons a l ih =>
      rw [List.countP_cons, total_cons, ih]
      cases p a <;> simp [Nat.add_comm]

end Total

/-! ### The balance of a node -/

namespace Network

variable (N : Network)

/-- The buffers that the node at the other end of an input made. -/
def supply (processor : NodeId → Option (Adapter τ)) (p : PortId) : Nat :=
  (N.feeder p).elim 0 fun x => (processor x).elim 0 Adapter.made

/-- The unread buffers on an input, one or none. -/
def unread (slot : PortId → Slot) (p : PortId) : Nat :=
  (N.holds slot p).toNat

/-- What a node took and what waits unread on its inputs is what the nodes that
feed it made; and an unread buffer has a name. -/
structure Balanced (s : Flow (Adapter τ)) : Prop where
  balance : ∀ {n x}, s.processor n = some x →
    x.taken + total (N.unread s.slot) (N.inputs n) =
      total (N.supply s.processor) (N.inputs n)
  named : ∀ {n p}, p ∈ N.inputs n → N.holds s.slot p = true →
    (s.slot p).buffer.isSome = true

variable {N} {n : NodeId} {s t : Flow (Adapter τ)} {x x' : Adapter τ}

/-- A change at one node keeps the balance if it changes slots of other nodes
only through its outputs, leaves as many more buffers there as it made, and
takes from its inputs what it claims to have taken. -/
lemma Balanced.act (hN : N.Proper) (h : N.Balanced s)
    (hx : s.processor n = some x)
    (hprocessor : t.processor = Function.update s.processor n (some x'))
    (hframe : ∀ m ≠ n, ∀ q ∈ N.inputs m, q ∉ N.targets n → t.slot q = s.slot q)
    (hmade : ∀ p ∈ N.targets n,
      N.unread t.slot p + x.made = N.unread s.slot p + x'.made)
    (htaken : x'.taken + total (N.unread t.slot) (N.inputs n) =
      x.taken + total (N.unread s.slot) (N.inputs n))
    (hnamed : ∀ m, ∀ p ∈ N.inputs m, N.holds t.slot p = true →
      (t.slot p).buffer.isSome = true) :
    N.Balanced t := by
  refine ⟨fun {m y} hy => ?_, fun hp hh => hnamed _ _ hp hh⟩
  -- every input gains as much as its supply does
  have hgain : ∀ q ∈ N.inputs m, m ≠ n →
      N.unread t.slot q + N.supply s.processor q =
        N.unread s.slot q + N.supply t.processor q := by
    intro q hq hm
    by_cases hqt : q ∈ N.targets n
    · have hf := (hN.feeder hq n).mpr hqt
      simpa [supply, hf, hx, hprocessor] using hmade q hqt
    · have hf : N.feeder q ≠ some n := fun h => hqt ((hN.feeder hq n).mp h)
      have hsupply : N.supply t.processor q = N.supply s.processor q := by
        rw [supply, supply]
        rcases hfeeder : N.feeder q with _ | z
        · rfl
        · have hz : z ≠ n := fun h => hf (h ▸ hfeeder)
          simp [hprocessor, hz]
      rw [hsupply, unread, unread, holds, holds, hframe m hm q hq hqt]
  rcases eq_or_ne m n with rfl | hm
  · have hsupply : total (N.supply t.processor) (N.inputs m) =
        total (N.supply s.processor) (N.inputs m) := by
      refine total_congr fun q hq => ?_
      rw [supply, supply]
      rcases hfeeder : N.feeder q with _ | z
      · rfl
      · have hz : z ≠ m := fun h => hN.irrefl hq (h ▸ hfeeder)
        simp [hprocessor, hz]
    rw [hprocessor, Function.update_self] at hy
    cases hy
    rw [hsupply, htaken]
    exact h.balance hx
  · rw [hprocessor, Function.update_of_ne hm] at hy
    have hsum : total (N.unread t.slot) (N.inputs m) +
        total (N.supply s.processor) (N.inputs m) =
        total (N.unread s.slot) (N.inputs m) +
        total (N.supply t.processor) (N.inputs m) := by
      rw [← total_add, ← total_add]
      exact total_congr fun q hq => hgain q hq hm
    have := h.balance hy
    omega

/-! ### Calls and turns -/

lemma unread_congr {slot slot' : PortId → Slot} {p : PortId}
    (h : (slot' p).hasData = (slot p).hasData) :
    N.unread slot' p = N.unread slot p := by
  rw [unread, unread, holds, holds, h]

lemma unread_of_empty {slot : PortId → Slot} {p : PortId}
    (h : (slot p).hasData = false) : N.unread slot p = 0 := by
  simp [unread, holds, h]

lemma unread_of_full {slot : PortId → Slot} {p : PortId}
    (hf : (N.feeder p).isSome = true) (h : (slot p).hasData = true) :
    N.unread slot p = 1 := by
  simp [unread, holds, hf, h]

/-- A call that changes neither what is unread nor a tally. -/
private lemma Balanced.of_same (hN : N.Proper) (h : N.Balanced s)
    (hx : s.processor n = some x)
    (hprocessor : t.processor = Function.update s.processor n (some x'))
    (hframe : ∀ m ≠ n, ∀ q ∈ N.inputs m, q ∉ N.targets n → t.slot q = s.slot q)
    (hdata : ∀ q, (t.slot q).hasData = (s.slot q).hasData)
    (hbuffer : ∀ q, (t.slot q).hasData = true →
      (t.slot q).buffer = (s.slot q).buffer)
    (hmade : x'.made = x.made) (htaken : x'.taken = x.taken) : N.Balanced t := by
  refine h.act hN hx hprocessor hframe (fun p _ => ?_) ?_ fun m p hp hh => ?_
  · rw [unread_congr (hdata p), hmade]
  · rw [htaken, total_congr fun q _ => unread_congr (hdata q)]
  · have hh' := N.holds_iff.mp hh
    rw [hbuffer p hh'.2]
    exact h.named hp (N.holds_iff.mpr ⟨hh'.1, hdata p ▸ hh'.2⟩)

/-- A call that touches the slot of one of the node's own ports. -/
private lemma Balanced.act_update (hN : N.Proper) (h : N.Balanced s) {p : PortId}
    {c : Slot} (hx : s.processor n = some x)
    (hprocessor : t.processor = Function.update s.processor n (some x'))
    (hown : p ∈ N.inputs n ∨ p ∈ N.targets n)
    (hslot : t.slot = Function.update s.slot p c)
    (hmade : ∀ q ∈ N.targets n,
      N.unread t.slot q + x.made = N.unread s.slot q + x'.made)
    (htaken : x'.taken + total (N.unread t.slot) (N.inputs n) =
      x.taken + total (N.unread s.slot) (N.inputs n))
    (hnamed : c.hasData = true → c.buffer.isSome = true) : N.Balanced t := by
  refine h.act hN hx hprocessor (fun m hm q hq hqt => ?_) hmade htaken
    fun m q hq hh => ?_
  · have hne : q ≠ p := by
      rintro rfl
      exact hown.elim (fun hp => hm (hN.owner_unique hq hp)) hqt
    rw [hslot, Function.update_of_ne hne]
  · rw [hslot] at hh ⊢
    rcases eq_or_ne q p with rfl | hne
    · rw [Function.update_self]
      exact hnamed (by simpa using (N.holds_iff.mp hh).2)
    · rw [Function.update_of_ne hne]
      exact h.named hq (by simpa [holds, hne] using hh)

/-- A call that leaves one of the node's own ports without data, as it was. -/
private lemma Balanced.of_empty (hN : N.Proper) (h : N.Balanced s) {p : PortId}
    {c : Slot} (hx : s.processor n = some x)
    (hprocessor : t.processor = Function.update s.processor n (some x'))
    (hown : p ∈ N.inputs n ∨ p ∈ N.targets n)
    (hf : (s.slot p).hasData = false) (hc : c.hasData = false)
    (hslot : t.slot = Function.update s.slot p c)
    (hmade : x'.made = x.made) (htaken : x'.taken = x.taken) : N.Balanced t := by
  have hunread : N.unread t.slot = N.unread s.slot := by
    funext q
    rw [hslot]
    rcases eq_or_ne q p with rfl | hne
    · rw [unread_of_empty hf, unread_of_empty (by simpa using hc)]
    · rw [unread_congr (by rw [Function.update_of_ne hne])]
  exact h.act_update hN hx hprocessor hown hslot (by simp [hunread, hmade])
    (by simp [hunread, htaken]) (by simp [hc])

/-- A call that makes one buffer, and leaves it in its only output. -/
private lemma Balanced.of_make (hN : N.Proper) (h : N.Balanced s) {p : PortId}
    {c : Slot} (hx : s.processor n = some x)
    (hprocessor : t.processor = Function.update s.processor n (some x'))
    (ho : N.outputs n = [some p]) (hf : (s.slot p).hasData = false)
    (hc : c.hasData = true) (hb : c.buffer.isSome = true)
    (hslot : t.slot = Function.update s.slot p c)
    (hmade : x'.made = x.made + 1) (htaken : x'.taken = x.taken) :
    N.Balanced t := by
  have htarget : p ∈ N.targets n := by simp [targets_of_outputs ho]
  have hp : p ∉ N.inputs n := hN.not_mem_inputs htarget
  refine h.act_update hN hx hprocessor (.inr htarget) hslot (fun q hq => ?_) ?_
    fun _ => hb
  · obtain rfl : q = p := by simpa [targets_of_outputs ho] using hq
    obtain ⟨m, hm⟩ := hN.target hq
    have hfeeder := (hN.feeder hm n).mpr hq
    rw [unread_of_full (by simp [hfeeder]) (by simpa [hslot] using hc),
      unread_of_empty hf, hmade]
    omega
  · rw [htaken]
    refine congrArg _ (total_congr fun q hq => unread_congr ?_)
    rw [hslot, Function.update_of_ne]
    rintro rfl
    exact hp hq

/-- A call that takes the buffer in its only input. -/
private lemma Balanced.of_consume (hN : N.Proper) (h : N.Balanced s) {p : PortId}
    {c : Slot} (hx : s.processor n = some x)
    (hprocessor : t.processor = Function.update s.processor n (some x'))
    (hin : N.inputs n = [p]) (hf : (N.feeder p).isSome = true)
    (hd : (s.slot p).hasData = true) (hc : c.hasData = false)
    (hslot : t.slot = Function.update s.slot p c)
    (hmade : x'.made = x.made) (htaken : x'.taken = x.taken + 1) :
    N.Balanced t := by
  have hp : p ∈ N.inputs n := by simp [hin]
  refine h.act_update hN hx hprocessor (.inl hp) hslot (fun q hq => ?_) ?_
    (by simp [hc])
  · rw [hmade, unread_congr]
    rw [hslot, Function.update_of_ne]
    rintro rfl
    exact hN.not_mem_inputs hq hp
  · rw [hin, total_cons, total_cons, total_nil, unread_of_full hf hd,
      unread_of_empty (by simpa [hslot] using hc), htaken, total_nil]

/-- A call that takes all that is unread on its inputs, and leaves `c` in its
only output. -/
private lemma Balanced.of_take (hN : N.Proper) (h : N.Balanced s) {p : PortId}
    {c : Slot} (hx : s.processor n = some x)
    (hprocessor : t.processor = Function.update s.processor n (some x'))
    (ho : N.outputs n = [some p]) (hempty : (s.slot p).hasData = false)
    (hslot : t.slot = Function.update (N.onInputs n (·.take.2) s.slot) p c)
    (hmade : x'.made = x.made + c.hasData.toNat)
    (htaken : x'.taken = x.taken + (N.inputs n).countP fun q =>
      N.holds s.slot q && (s.slot q).buffer.isSome)
    (hnamed : c.hasData = true → c.buffer.isSome = true) : N.Balanced t := by
  have htarget : p ∈ N.targets n := by simp [targets_of_outputs ho]
  have hp : p ∉ N.inputs n := hN.not_mem_inputs htarget
  have hf : (N.feeder p).isSome = true := by
    obtain ⟨m, hm⟩ := hN.target htarget
    simp [(hN.feeder hm n).mpr htarget]
  -- the inputs of the node, all of which are empty afterwards
  have hin : ∀ q ∈ N.inputs n, N.holds t.slot q = false := by
    intro q hq
    have hne : q ≠ p := by
      rintro rfl
      exact hp hq
    rw [holds, hslot, Function.update_of_ne hne, onInputs]
    cases hfq : (N.feeder q).isSome
    · rfl
    · simp [hq]
  refine h.act hN hx hprocessor ?_ ?_ ?_ ?_
  · intro m hm q hq hqt
    have hne : q ≠ p := by
      rintro rfl
      exact hqt htarget
    rw [hslot, Function.update_of_ne hne, onInputs,
      if_neg fun hc => hm (hN.owner_unique hq hc.1)]
  · intro q hq
    obtain rfl : q = p := by simpa [targets_of_outputs ho] using hq
    rw [unread_of_empty hempty, hmade, unread, holds, hf, hslot,
      Function.update_self, Bool.true_and]
    omega
  · have hnone : total (N.unread t.slot) (N.inputs n) = 0 :=
      total_eq_zero fun q hq => by rw [unread, hin q hq]; rfl
    have hall : total (N.unread s.slot) (N.inputs n) =
        (N.inputs n).countP fun q =>
          N.holds s.slot q && (s.slot q).buffer.isSome := by
      rw [countP_eq_total]
      refine total_congr fun q hq => ?_
      rw [unread]
      cases hh : N.holds s.slot q
      · rfl
      · rw [h.named hq hh]
        rfl
    rw [hnone, hall, htaken]
    omega
  · intro m q hq hh
    by_cases hqn : q ∈ N.inputs n
    · simp [hin q hqn] at hh
    · rw [hslot] at hh ⊢
      rcases eq_or_ne q p with rfl | hne
      · rw [Function.update_self]
        exact hnamed (by simpa [holds, hf] using hh)
      · rw [Function.update_of_ne hne, onInputs, if_neg fun hc => hqn hc.1]
        refine h.named hq ?_
        rwa [holds, Function.update_of_ne hne, onInputs,
          if_neg fun hc => hqn hc.1] at hh

/-- Every call keeps the balance, unless a sink is asked for output. -/
lemma Acts.balanced (hN : N.Proper) (h : N.Balanced s) {side : Side}
    {r : Except ProcessError Verdict} {slot : PortId → Slot}
    (hx : s.processor n = some x) (hacts : N.Acts n s.slot x side r slot x')
    (hside : x.kind? = some .sink → side = .input) (hslot : t.slot = slot)
    (hprocessor : t.processor = Function.update s.processor n (some x')) :
    N.Balanced t := by
  cases hacts with
  | notSupported | mute | keep | deaf | idle | hold =>
      exact h.of_same hN hx hprocessor (by simp [hslot]) (by simp [hslot])
        (by simp [hslot]) rfl rfl
  | dry ho hf hacq =>
      exact h.of_empty hN hx hprocessor (.inr (by simp [targets_of_outputs ho])) hf
        (by exact hf) hslot rfl rfl
  | produce ho hf hacq =>
      exact h.of_make hN hx hprocessor ho hf rfl rfl hslot rfl rfl
  | consume hin hf hd =>
      exact h.of_consume hN hx hprocessor hin hf hd rfl hslot rfl rfl
  | want hin hf hd =>
      -- asked for output, it would overwrite the buffer in its input
      exact h.of_empty hN hx hprocessor (.inl (by simp [hin])) (hd (hside rfl)) rfl
        hslot rfl rfl
  | request ho hf hl hw =>
      refine h.of_same hN hx hprocessor (fun m hm q hq _ => ?_)
        (by simp [hslot]) (by simp [hslot]) rfl rfl
      rw [hslot, onInputs, if_neg fun hc => hm (hN.owner_unique hq hc.1)]
  | spill ho hf hm hh hacq =>
      -- the output keeps its status: it has no data, before and after
      have hc : Slot.hasData { s.slot _ with buffer := none } = false := hf
      exact h.of_take hN hx hprocessor ho hf hslot (by simp [Adapter.made, hc]) rfl
        fun hd => absurd (hc.symm.trans hd) Bool.false_ne_true
  | mix ho hf hm hh hacq =>
      exact h.of_take hN hx hprocessor ho hf hslot rfl rfl fun _ => rfl

/-- Every turn keeps the balance, unless a sink is asked for output. -/
lemma Serves.balanced (hN : N.Proper) {D : Option NodeId}
    {v : FlowTurn (Adapter τ)} (h : N.Serves D n s v) (hs : N.Balanced s)
    (hsink : ∀ x, s.processor n = some x → x.kind? = some .sink →
      s.phase n ≠ .output) : N.Balanced v.flow := by
  rcases h.data hN with
    ⟨hslot, hp⟩ | ⟨x, side, r, slot, x', hx, hφ, hacts, hslot, hp⟩
  · refine ⟨fun {m y} hy => ?_, fun hp hh => ?_⟩
    · rw [hp] at hy
      rw [hslot, hp]
      exact hs.balance hy
    · rw [hslot] at hh ⊢
      exact hs.named hp hh
  · refine hacts.balanced hN hs hx (fun hk => ?_) hslot hp
    cases side with
    | input => rfl
    | output => exact absurd hφ (hsink x hx hk)

end Network

/-! ### Built graphs -/

namespace Description

variable {d : Description} {N : Network} {s : Flow (Adapter τ)}

/-- The nodes are staffed and balanced, and no sink is asked for output. -/
structure Conserved (d : Description) (N : Network) (s : Flow (Adapter τ)) :
    Prop where
  staffed : d.Staffed s
  balanced : N.Balanced s
  silent : ∀ n, d.isSink n = true → s.phase n ≠ .output

/-- Nothing was made and nothing was taken yet. -/
lemma Untouched.conserved (h : d.Untouched N s) : d.Conserved N s where
  staffed := h.staffed
  balanced := by
    have hmade : ∀ spec : NodeSpec,
        (Assembly.processorOf spec : Adapter τ).made = 0 ∧
          (Assembly.processorOf spec : Adapter τ).taken = 0 := by
      intro spec
      rw [Assembly.processorOf]
      cases spec.kind <;> exact ⟨rfl, rfl⟩
    have hempty : ∀ {n p}, p ∈ N.inputs n → (s.slot p).hasData = false := by
      intro n p hp
      rw [h.slot hp]
      split <;> rfl
    refine ⟨fun {n x} hx => ?_, fun {n p} hp hh => ?_⟩
    · rw [h.processor, Option.map_eq_some_iff] at hx
      obtain ⟨spec, -, rfl⟩ := hx
      rw [(hmade spec).2,
        total_eq_zero fun p hp => N.unread_of_empty (hempty hp),
        total_eq_zero fun p _ => ?_]
      rw [Network.supply]
      rcases N.feeder p with _ | x
      · rfl
      · rw [Option.elim_some, h.processor]
        rcases d.nodes[x.index]? with _ | spec
        · rfl
        · exact (hmade spec).1
    · have := (N.holds_iff.mp hh).2
      simp [hempty hp] at this
  silent n _ := by simp [h.phase]

namespace Conserved

/-- A sink feeds nobody. -/
lemma not_feeds (hN : d.Realized N) {n c : NodeId} (hn : d.isSink n = true) :
    ¬ N.Feeds n c := by
  rintro ⟨p, hp, hf⟩
  obtain ⟨spec, hspec, hk⟩ := isSink_iff.mp hn
  have hout := hN.outputs hspec
  have hmem := (hN.proper.feeder hp n).mp hf
  simp [NodeSpec.outputCount, hk, List.length_eq_zero_iff] at hout
  simp [Network.targets, hout] at hmem

/-- Every turn conserves the buffers. -/
lemma serve [Processor τ] (hN : d.Realized N) (h : d.Conserved N s)
    (D : Option NodeId) (n : NodeId) : d.Conserved N (N.serve D n s).flow := by
  refine ⟨h.staffed.serve hN D n, ?_, ?_⟩
  · rcases h.staffed.serves hN D n with hserves | hidle
    · refine hserves.balanced hN.proper h.balanced fun x hx hk => h.silent n ?_
      obtain ⟨spec, hspec, hk'⟩ := h.staffed.exists_spec hx
      exact isSink_iff.mpr ⟨spec, hspec, by simpa [hk] using hk'.symm⟩
    · rw [hidle]
      exact ⟨h.balanced.balance, h.balanced.named⟩
  · intro m hm hφ
    rcases h.staffed.serves hN D n with hserves | hidle
    · rcases hserves.phase_output hN.proper hφ with hφ | hfeeds
      · exact h.silent m hm hφ
      · exact not_feeds hN hm hfeeds
    · rw [hidle] at hφ
      exact h.silent m hm hφ

/-- Every activation but a push of a sink conserves the buffers. -/
lemma ends [Processor τ] (hN : d.Realized N) (h : d.Conserved N s) {mode : Mode}
    {n : NodeId} (hpush : ¬ (mode = .push ∧ d.isSink n = true)) {budget : Nat}
    {r : Except ActivationError Unit} {calls : List Callback}
    {t : Flow (Adapter τ)} (ht : N.Ends (some n) (s.start mode n) budget r calls t) :
    d.Conserved N t.clear := by
  have hstart : d.Conserved N (s.start mode n) := by
    refine ⟨⟨h.staffed.kind, h.staffed.outside⟩,
      ⟨h.balanced.balance, h.balanced.named⟩, fun m hm hφ => ?_⟩
    rcases eq_or_ne m n with rfl | hne
    · cases mode with
      | pull => simp [Flow.start, Flow.setPhase, Flow.enqueue, Mode.phase] at hφ
      | push => exact hpush ⟨rfl, hm⟩
    · refine h.silent m hm ?_
      simpa [Flow.start, Flow.setPhase, Flow.enqueue, hne] using hφ
  have hend := ht.invariant hstart fun u m _ hu => hu.serve hN (some n) m
  exact ⟨⟨hend.staffed.kind, hend.staffed.outside⟩,
    ⟨hend.balanced.balance, hend.balanced.named⟩, hend.silent⟩

end Conserved

end Description

/-- The buffers that a node made: those produced by a source, and the mixes of
a mixer. -/
def Graph.made (g : Graph (Adapter τ)) (n : NodeId) : Nat :=
  (g.processor? n).elim 0 Adapter.made

/-- No buffer is lost or duplicated between the nodes of a built graph, whatever
activations other than pushes of sinks it went through and however they ended.
What a sink received and what waits unread in its slot is what its producer
made, and what a mixer consumed and what waits unread in its inputs is what its
producers made. -/
theorem Graph.buffers_conserved [Processor τ] {d : Description} {a : Assembly τ}
    {g : Graph (Adapter τ)} (hok : Assembly.build d = .ok a)
    (hg : a.graph.Activated
      (fun mode n _ => ¬ (mode = .push ∧ d.isSink n = true)) g)
    {n : NodeId} {spec : NodeSpec} (hspec : d.nodes[n.index]? = some spec) :
    (spec.kind = .sink → ∃ snk, g.processor? n = some (.sink snk) ∧
      ∀ p ∈ g.inputsOf n, ∀ x, g.feeder? p = some x →
        snk.received + (if g.hasData p then 1 else 0) = g.made x) ∧
    (spec.kind = .mixer → ∃ m, g.processor? n = some (.mixer m) ∧
      m.consumed + (g.inputsOf n).countP g.hasData =
        total g.made ((g.inputsOf n).filterMap g.feeder?)) := by
  obtain ⟨Λ, s₀, hΛ, h₀, hN, huntouched⟩ := Assembly.shows_of_build hok
  obtain ⟨s, hs, hconserved⟩ := Activated.shows (P := d.Conserved Λ.network) hΛ
    h₀ huntouched.conserved (fun h hpush ht => h.ends hN hpush ht) hg
  obtain ⟨x, hx, hk⟩ := hconserved.staffed.kind hspec
  -- the balance in terms of the graph
  have hsupply : total (Λ.network.supply s.processor) (Λ.network.inputs n) =
      total g.made ((g.inputsOf n).filterMap g.feeder?) := by
    rw [total_filterMap, hs.inputsOf_eq]
    refine total_congr fun p _ => ?_
    rw [Network.supply, hs.feeder?_eq]
    rcases Λ.network.feeder p with _ | y
    · rfl
    · rw [Option.elim_some, Option.elim_some, made, hs.processor?_eq]
  have hunread : total (Λ.network.unread s.slot) (Λ.network.inputs n) =
      (g.inputsOf n).countP g.hasData := by
    rw [countP_eq_total, hs.inputsOf_eq]
    exact total_congr fun p hp => by rw [hs.hasData_eq hΛ hp]; rfl
  have hbalance := hconserved.balanced.balance hx
  rw [hsupply, hunread] at hbalance
  rw [hs.processor?_eq, hx]
  refine ⟨fun hsink => ?_, fun hmixer => ?_⟩
  · cases x <;> simp [Adapter.kind?, hsink] at hk
    rename_i snk
    refine ⟨snk, rfl, fun p hp y hy => ?_⟩
    obtain ⟨⟨q, hq⟩, -⟩ := hconserved.staffed.suits hN hx
    rw [hs.inputsOf_eq, hq, List.mem_singleton] at hp
    subst hp
    rw [hs.inputsOf_eq, hq] at hbalance
    simpa [hy, Adapter.taken, List.countP_cons] using hbalance
  · cases x <;> simp [Adapter.kind?, hmixer] at hk
    rename_i m
    exact ⟨m, rfl, hbalance⟩

/-- The buffers of two sources behind a mixer after a push and a pull. -/
theorem Graph.buffers_conserved_fanIn :
    ∃ (a : Assembly Empty) (g : Graph (Adapter Empty)),
      Assembly.build Catalogue.fanIn = .ok a ∧
      g = ((a.graph.push ⟨0⟩).graph.pull ⟨3⟩).graph ∧
      ∃ m, g.processor? ⟨2⟩ = some (.mixer m) ∧
        m.consumed + (g.inputsOf ⟨2⟩).countP g.hasData =
          total g.made ((g.inputsOf ⟨2⟩).filterMap g.feeder?) := by
  obtain ⟨a, ha, -⟩ := Catalogue.exists_build (d := Catalogue.fanIn)
    (by simp [Catalogue.all])
  refine ⟨a, _, ha, rfl, ?_⟩
  have hg : a.graph.Activated
      (fun mode n _ => ¬ (mode = .push ∧ Catalogue.fanIn.isSink n = true))
      ((a.graph.push ⟨0⟩).graph.pull ⟨3⟩).graph :=
    .activate turnLimit (.activate turnLimit .start (by decide)) (by decide)
  exact (buffers_conserved ha hg (n := ⟨2⟩) rfl).2 rfl

end MediaGraph

/-
Producers always have a buffer at hand.

* `BufferPool.Whole`: all buffers of a pool are free;
* `BufferPool.exists_acquire`: a whole pool hands out a buffer, and is whole
  again when it takes that buffer back;
* `Description.Sound`: the pool of every producer would be whole with the
  buffer that its output names, and every linked sink has data or asks for it;
* `Sound.serve`, `Sound.ends`: every turn and every activation keeps it.
-/
import MediaGraph.Proofs.History
import MediaGraph.Proofs.Realization

namespace MediaGraph

/-! ### Pools -/

namespace BufferPool

/-- All buffers of a pool are free. -/
def Whole (p : BufferPool) : Prop := ∃ k, p = ofSize k

lemma Whole.size_pos {p : BufferPool} (h : p.Whole) : 0 < p.size := by
  obtain ⟨k, rfl⟩ := h
  simp only [ofSize]
  omega

lemma Whole.size_le {p : BufferPool} (h : p.Whole) : p.size ≤ 64 := by
  obtain ⟨k, rfl⟩ := h
  simp only [ofSize, poolLimit]
  omega

/-- The names below the size of a whole pool are free, and no others. -/
lemma Whole.getLsbD_eq {p : BufferPool} (h : p.Whole) (i : Nat) :
    p.free.getLsbD i = decide (i < p.size) := by
  have hmask : ∀ s ≤ 64, (if s = 64 then BitVec.allOnes 64
      else (1#64 <<< s) - 1#64).getLsbD i = decide (i < s) := by
    intro s hs
    split
    · rename_i h64
      rw [h64, BitVec.getLsbD_allOnes]
    · have hlt : 2 ^ s < 2 ^ 64 := Nat.pow_lt_pow_right (by decide) (by omega)
      have hpos : 0 < 2 ^ s := Nat.two_pow_pos s
      have hnat : ((1#64 <<< s) - 1#64).toNat = 2 ^ s - 1 := by
        rw [BitVec.toNat_sub, BitVec.toNat_shiftLeft, Nat.shiftLeft_eq]
        simp only [BitVec.toNat_ofNat]
        omega
      rw [BitVec.getLsbD, hnat, Nat.testBit_two_pow_sub_one]
  have hle := h.size_le
  obtain ⟨k, rfl⟩ := h
  exact hmask _ hle

/-- The least name in a whole pool is free. -/
lemma Whole.getLsbD_zero {p : BufferPool} (h : p.Whole) :
    p.free.getLsbD 0 = true := by
  rw [h.getLsbD_eq, decide_eq_true h.size_pos]

/-- Taking the least bit out of a mask and putting it back. -/
lemma xor_one_and_or (f : BitVec 64) (h : f.getLsbD 0 = true) :
    (f ^^^ 1#64) &&& 1#64 = 0#64 ∧ (f ^^^ 1#64) ||| 1#64 = f := by
  constructor
  all_goals
    ext i hi
    rcases i with _ | i <;> simp_all [← BitVec.getLsbD_eq_getElem]

/-- A whole pool hands out a buffer, and is whole again when it takes that
buffer back. -/
lemma Whole.exists_acquire {p : BufferPool} (h : p.Whole) :
    ∃ b q, p.acquire = (some b, q) ∧ q.recycle (some b) = p := by
  have hfind : (List.range p.size).find? p.free.getLsbD = some 0 := by
    obtain ⟨n, hn⟩ := Nat.exists_eq_add_of_lt h.size_pos
    rw [hn, Nat.zero_add, List.range_succ_eq_map,
      List.find?_cons_of_pos h.getLsbD_zero]
  refine ⟨⟨0⟩, _, by rw [acquire, hfind], ?_⟩
  obtain ⟨hand, hor⟩ := xor_one_and_or p.free h.getLsbD_zero
  have hbit : 1#64 <<< 0 = 1#64 := by decide
  have hsize : ¬ p.size ≤ 0 := Nat.not_le.mpr h.size_pos
  simp only [recycle, release, hbit, hsize, if_false, hand, hor, ne_eq,
    not_true_eq_false]

/-- A whole pool does not run out. -/
lemma Whole.acquire_ne_none {p : BufferPool} (h : p.Whole) (q : BufferPool) :
    p.acquire ≠ (none, q) := by
  obtain ⟨b, _, hacq, -⟩ := h.exists_acquire
  simp [hacq]

end BufferPool

/-- The pool of a producer. -/
def Adapter.pool? {τ : Type} : Adapter τ → Option BufferPool
  | .source s => some s.pool
  | .mixer m => some m.pool
  | .sink _ => none
  | .custom _ => none

/-- The status of a slot is as before, or says that there is data or that some
is wanted. -/
def Slot.Kept (c c' : Slot) : Prop :=
  c'.status = c.status ∨ c'.status = .haveData ∨ c'.status = .needData

/-! ### Calls -/

namespace Network

variable {τ : Type} {N : Network} {n : NodeId} {slot slot' : PortId → Slot}
  {x x' : Adapter τ} {side : Side} {r : Except ProcessError Verdict}

lemma update_cases {P : Slot → Prop} {p q : PortId} {c : Slot} (h : P (slot q))
    (hc : q = p → P c) : P (Function.update slot p c q) := by
  rw [Function.update_apply]
  split
  · exact hc (by assumption)
  · exact h

/-- A call leaves data or a request behind wherever it changes a status. -/
lemma Acts.kept (h : N.Acts n slot x side r slot' x') (q : PortId) :
    (slot q).Kept (slot' q) := by
  have hrefl : (slot q).Kept (slot q) := Or.inl rfl
  have htake : (slot q).Kept (slot q).take.2 := by
    rw [Slot.take]
    split
    · exact Or.inr (Or.inr rfl)
    · exact hrefl
  have hrequest : (slot q).Kept (Mixer.requestIfDrained (slot q)) := by
    rw [Mixer.requestIfDrained]
    split
    · exact hrefl
    · exact Or.inr (Or.inr rfl)
  cases h with
  | notSupported | mute | keep | deaf | idle | hold => exact hrefl
  | dry => exact update_cases hrefl fun hq => Or.inl (by rw [hq])
  | produce => exact update_cases hrefl fun _ => Or.inr (Or.inl rfl)
  | consume | want => exact update_cases hrefl fun _ => Or.inr (Or.inr rfl)
  | request => exact onInputs_cases hrefl hrequest
  | spill =>
      exact update_cases (onInputs_cases hrefl htake) fun hq =>
        Or.inl (by rw [hq])
  | mix =>
      exact update_cases (onInputs_cases hrefl htake) fun _ =>
        Or.inr (Or.inl rfl)

/-- A node that checks its inputs next asked for all that are drained. -/
lemma Acts.asked (h : N.Acts n slot x side (.ok .needInput) slot' x') {p : PortId}
    (hp : p ∈ N.inputs n) (hf : (N.feeder p).isSome = true) :
    (slot' p).status ≠ .ok := by
  cases h with
  | consume hin | want hin =>
      obtain rfl : p = _ := by simpa [hin] using hp
      simp [Slot.request]
  | request =>
      rw [onInputs, if_pos ⟨hp, hf⟩, Mixer.requestIfDrained]
      split
      · rename_i hd
        rw [Slot.hasData, decide_eq_true_eq] at hd
        simp [hd]
      · simp [Slot.request]

/-- A call renames buffers only in the outputs of its node. -/
lemma Acts.buffer (h : N.Acts n slot x side r slot' x') {q : PortId}
    (hq : q ∉ N.targets n) : (slot' q).buffer = (slot q).buffer := by
  have hne : ∀ {p}, N.outputs n = [some p] → q ≠ p := by
    rintro p ho rfl
    exact hq (by simp [targets_of_outputs ho])
  cases h with
  | notSupported | mute | keep | deaf | idle | hold => rfl
  | dry ho | produce ho => rw [Function.update_of_ne (hne ho)]
  | consume | want =>
      exact update_cases (P := fun c => c.buffer = (slot q).buffer) rfl
        fun hq => by rw [Slot.buffer_request, hq]
  | request =>
      exact N.buffer_onInputs_requestIfDrained _ _ _
  | spill ho | mix ho =>
      rw [Function.update_of_ne (hne ho)]
      exact onInputs_cases (P := fun c => c.buffer = (slot q).buffer) rfl
        (Slot.buffer_take _)

/-- A call renames no buffers in the outputs of other nodes. -/
lemma Acts.buffer_of_ne (hN : N.Proper) (h : N.Acts n slot x side r slot' x') {m : NodeId}
    (hm : m ≠ n) {q : PortId} (hq : q ∈ N.targets m) :
    (slot' q).buffer = (slot q).buffer := by
  refine h.buffer fun hqn => hm ?_
  obtain ⟨c, hc⟩ := hN.target hq
  exact Option.some.inj (((hN.feeder hc m).mpr hq).symm.trans ((hN.feeder hc n).mpr hqn))

/-- A producer whose pool is whole with the buffer that its output names is
left with such a pool. -/
lemma Acts.whole (hN : N.Proper) (h : N.Acts n slot x side r slot' x') {p : PortId}
    (ho : N.outputs n = [some p])
    (hwhole : ∀ pool, x.pool? = some pool →
      (pool.recycle (slot p).buffer).Whole) {pool : BufferPool}
    (hpool : x'.pool? = some pool) : (pool.recycle (slot' p).buffer).Whole := by
  have hp : p ∉ N.inputs n := hN.not_mem_inputs (by simp [targets_of_outputs ho])
  have hacquire : ∀ {old pool' : BufferPool} {b : Option BufferId},
      old.Whole → old.acquire = (b, pool') → (pool'.recycle b).Whole := by
    intro old pool' b hw hacq
    obtain ⟨b', q, hq, hr⟩ := hw.exists_acquire
    rw [hq] at hacq
    cases hacq
    rwa [hr]
  cases h with
  | notSupported | mute | keep | deaf | idle | hold => exact hwhole _ hpool
  | dry ho' _ hacq | produce ho' _ hacq | spill ho' _ _ _ hacq
  | mix ho' _ _ _ hacq =>
      obtain rfl : p = _ := by simpa [ho] using ho'
      cases hpool
      rw [Function.update_self]
      exact hacquire (hwhole _ rfl) hacq
  | consume | want => cases hpool
  | request =>
      rw [onInputs, if_neg fun hc => hp hc.1]
      exact hwhole _ hpool

end Network

/-! ### Turns -/

namespace Description

variable {τ : Type} {d : Description} {N : Network} {s : Flow (Adapter τ)}

/-- Every producer has a buffer at hand, and every linked sink has data or asks
for it. -/
structure Sound (d : Description) (N : Network) (s : Flow (Adapter τ)) : Prop
    where
  staffed : d.Staffed s
  whole : ∀ {n x pool p}, s.processor n = some x → x.pool? = some pool →
    N.outputs n = [some p] → (pool.recycle (s.slot p).buffer).Whole
  demanding : ∀ {n p}, d.isSink n = true → p ∈ N.inputs n →
    (N.feeder p).isSome = true →
    (s.slot p).status = .haveData ∨ (s.slot p).status = .needData

/-- The pool of a producer that made nothing yet is full. -/
lemma Untouched.exists_pool (h : d.Untouched N s) {n : NodeId} {x : Adapter τ}
    {pool : BufferPool} (hx : s.processor n = some x) (hpool : x.pool? = some pool) :
    ∃ size, pool = .ofSize size := by
  rw [h.processor, Option.map_eq_some_iff] at hx
  obtain ⟨spec, -, rfl⟩ := hx
  rw [Assembly.processorOf] at hpool
  cases hk : spec.kind <;> rw [hk] at hpool <;> cases hpool
  · exact ⟨_, rfl⟩
  · exact ⟨_, rfl⟩

/-- No output names a buffer yet. -/
lemma Untouched.buffer_eq_none (hN : d.Realized N) (h : d.Untouched N s)
    {n : NodeId} {p : PortId} (hp : p ∈ N.targets n) : (s.slot p).buffer = none := by
  obtain ⟨c, hc⟩ := hN.proper.target hp
  rw [h.slot hc]
  split <;> rfl

/-- An untouched flow is sound. -/
lemma Untouched.sound (hN : d.Realized N) (h : d.Untouched N s) :
    d.Sound N s where
  staffed := h.staffed
  whole {n x pool p} hx hpool ho := by
    obtain ⟨size, rfl⟩ := h.exists_pool hx hpool
    rw [h.buffer_eq_none hN (n := n) (by simp [Network.targets_of_outputs ho])]
    exact ⟨_, rfl⟩
  demanding {n p} hsink hp hf := by
    rw [h.slot hp, hf, hsink]
    exact Or.inr rfl

namespace Sound

/-- What differs only in who waits for a turn is as sound. -/
lemma congr {t : Flow (Adapter τ)} (h : d.Sound N s) (hslot : t.slot = s.slot)
    (hprocessor : t.processor = s.processor) : d.Sound N t where
  staffed := ⟨fun hn => by rw [hprocessor]; exact h.staffed.kind hn,
    fun hn => by rw [hprocessor]; exact h.staffed.outside hn⟩
  whole hx hpool ho := by
    rw [hprocessor] at hx
    rw [hslot]
    exact h.whole hx hpool ho
  demanding hsink hp hf := by
    rw [hslot]
    exact h.demanding hsink hp hf

/-- Every turn keeps a flow sound. -/
lemma serve [Processor τ] (hN : d.Realized N) (h : d.Sound N s)
    (D : Option NodeId) (n : NodeId) : d.Sound N (N.serve D n s).flow := by
  rcases h.staffed.serves hN D n with hserves | hidle
  · rcases hserves.data hN.proper with
      ⟨hslot, hp⟩ | ⟨x, side, r, slot, x', hx, -, hacts, hslot, hp⟩
    · exact h.congr hslot hp
    · refine ⟨h.staffed.serve hN D n, fun {m y pool p} hy hpool ho => ?_,
        fun {m p} hsink hq hf => ?_⟩
      · rw [hp] at hy
        rw [hslot]
        rcases eq_or_ne m n with rfl | hm
        · rw [Function.update_self] at hy
          cases hy
          exact hacts.whole hN.proper ho (fun _ hpool => h.whole hx hpool ho)
            hpool
        · rw [Function.update_of_ne hm] at hy
          rw [hacts.buffer_of_ne hN.proper hm (by simp [Network.targets_of_outputs ho])]
          exact h.whole hy hpool ho
      · rw [hslot]
        rcases hacts.kept p with hk | hk | hk
        · rw [hk]
          exact h.demanding hsink hq hf
        · exact Or.inl hk
        · exact Or.inr hk
  · rw [hidle]
    exact h.congr rfl rfl

/-- Every activation keeps a flow sound. -/
lemma ends [Processor τ] (hN : d.Realized N) (h : d.Sound N s) {mode : Mode}
    {n : NodeId} {budget : Nat} {r : Except ActivationError Unit}
    {calls : List Callback} {t : Flow (Adapter τ)}
    (ht : N.Ends (some n) (s.start mode n) budget r calls t) :
    d.Sound N t.clear := by
  have hstart : d.Sound N (s.start mode n) := h.congr rfl rfl
  exact (ht.invariant hstart fun u m _ hu => hu.serve hN (some n) m).congr
    rfl rfl

end Sound

end Description

end MediaGraph

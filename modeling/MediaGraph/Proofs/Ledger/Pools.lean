/-
The books of a buffer pool.

* `BufferPool.Sized`: the names of a pool are those below its size, which a mask of
  64 bits can hold;
* `BufferPool.available_eq`: its free buffers are counted by its mask;
* `Sized.acquire_none`, `Sized.acquire_some`, `Sized.release`: what handing out a
  buffer and taking one back do to that count;
* `BufferPool.Covers`: the free buffers, the one that the first output of the owner
  names, and a number of lost ones are all that there are;
* `Covers.refill`: recycling the buffer in the first output and putting another one
  there keeps the books, and fails only if all buffers are lost.
-/
import MediaGraph.Proofs.Counters
import MediaGraph.Proofs.Stock

namespace MediaGraph.BufferPool

variable {p q : BufferPool} {b : BufferId}

/-! ### Free buffers -/

/-- The bits of a mask are counted one by one. -/
lemma cpopNatRec_eq_countP {w : Nat} (x : BitVec w) (k : Nat) :
    x.cpopNatRec k 0 = (List.range k).countP x.getLsbD := by
  induction k with
  | zero => rfl
  | succ k ih =>
      rw [BitVec.cpopNatRec_succ, List.range_succ, List.countP_append, ← ih,
        BitVec.cpopNatRec_eq, Nat.zero_add, List.countP_singleton]
      cases x.getLsbD k <;> simp

lemma available_eq (p : BufferPool) :
    p.available = (List.range 64).countP p.free.getLsbD := by
  rw [available, BitVec.toNat_cpop, cpopNatRec_eq_countP]

/-- The bit of a name. -/
lemma getLsbD_bit {k : Nat} (hk : k < 64) (i : Nat) :
    (1#64 <<< k).getLsbD i = decide (i = k) := by
  rw [BitVec.getLsbD_shiftLeft, BitVec.getLsbD_one]
  rcases Nat.lt_trichotomy i k with hi | rfl | hi
  · simp [hi, Nat.ne_of_lt hi]
  · simp [hk]
  · have hne : i - k ≠ 0 := by omega
    simp [hne, Nat.ne_of_gt hi]

/-- The bit of a name is set in a mask. -/
lemma getLsbD_or_bit (x : BitVec 64) {k : Nat} (hk : k < 64) :
    (x ||| 1#64 <<< k).getLsbD = Function.update x.getLsbD k true := by
  funext i
  rw [Function.update_apply, BitVec.getLsbD_or, getLsbD_bit hk]
  by_cases hi : i = k
  · simp [hi]
  · simp [hi]

/-- The bit of a name is cleared in a mask that has it. -/
lemma getLsbD_xor_bit {x : BitVec 64} {k : Nat} (hk : k < 64) (hset : x.getLsbD k = true) :
    (x ^^^ 1#64 <<< k).getLsbD = Function.update x.getLsbD k false := by
  funext i
  rw [Function.update_apply, BitVec.getLsbD_xor, getLsbD_bit hk]
  by_cases hi : i = k
  · simp [hi, hset]
  · simp [hi]

lemma and_bit_eq_zero_iff (x : BitVec 64) {k : Nat} (hk : k < 64) :
    x &&& (1#64 <<< k) = 0#64 ↔ x.getLsbD k = false := by
  constructor
  · intro hzero
    have hbit := congrArg (BitVec.getLsbD · k) hzero
    simpa [BitVec.getLsbD_and, getLsbD_bit hk] using hbit
  · intro hclear
    refine BitVec.eq_of_getLsbD_eq fun i _ => ?_
    rw [BitVec.getLsbD_and, getLsbD_bit hk]
    by_cases hi : i = k
    · simp [hi, hclear]
    · simp [hi]

/-- The names of a pool are those below its size, which a mask of 64 bits can hold. -/
structure Sized (p : BufferPool) : Prop where
  size_le : p.size ≤ 64
  lt_size : ∀ {i}, p.free.getLsbD i = true → i < p.size

/-- In a whole pool as many buffers are free as there are. -/
lemma Whole.sized (h : p.Whole) : p.Sized ∧ p.available = p.size := by
  have hcount : ∀ s ≤ 64, (List.range 64).countP (fun i => decide (i < s)) = s := by
    decide +kernel
  refine ⟨⟨h.size_le, fun {i} hi => by simpa [h.getLsbD_eq i] using hi⟩, ?_⟩
  rw [available_eq, funext h.getLsbD_eq]
  exact hcount _ h.size_le

namespace Sized

/-- A pool that has no buffer to hand out has none that is free, and stays as it is. -/
lemma acquire_none (h : p.Sized) (hacq : p.acquire = (none, q)) :
    q = p ∧ p.available = 0 := by
  unfold acquire at hacq
  split at hacq
  · rename_i hfind
    refine ⟨(Prod.mk.inj hacq).2.symm, ?_⟩
    rw [available_eq, List.countP_eq_zero]
    intro i _ hi
    exact List.find?_eq_none.mp hfind i (List.mem_range.mpr (h.lt_size hi)) hi
  · cases hacq

/-- The buffer that is handed out was free, and is not any more. -/
lemma acquire_some (h : p.Sized) (hacq : p.acquire = (some b, q)) :
    q.Sized ∧ q.size = p.size ∧ q.available + 1 = p.available ∧ b.index < q.size ∧
      q.free.getLsbD b.index = false := by
  unfold acquire at hacq
  split at hacq
  · cases hacq
  · rename_i id hfind
    obtain ⟨hb, rfl⟩ := Prod.mk.inj hacq
    obtain rfl := Option.some.inj hb
    have hfree : p.free.getLsbD id = true := List.find?_some hfind
    have hlt : id < 64 := Nat.lt_of_lt_of_le (h.lt_size hfree) h.size_le
    have hbits := getLsbD_xor_bit hlt hfree
    refine ⟨⟨h.size_le, fun {i} hi => ?_⟩, rfl, ?_, h.lt_size hfree, ?_⟩
    · simp only [hbits, Function.update_apply] at hi
      split at hi
      · cases hi
      · exact h.lt_size hi
    · have hpos : 0 < (List.range 64).countP p.free.getLsbD :=
        List.countP_pos_iff.mpr ⟨id, List.mem_range.mpr hlt, hfree⟩
      rw [available_eq, available_eq]
      simp only [hbits]
      rw [Graph.countP_unmark List.nodup_range, if_pos ⟨List.mem_range.mpr hlt, hfree⟩,
        Nat.sub_add_cancel hpos]
    · simp only [hbits, Function.update_self]

/-- A pool without free buffers hands out none. -/
lemma acquire_of_available (h : p.Sized) (hzero : p.available = 0) :
    p.acquire.1 = none := by
  rcases hacq : p.acquire with ⟨_ | b, q⟩
  · rfl
  · obtain ⟨-, -, hfree, -⟩ := h.acquire_some hacq
    omega

/-- A buffer that was handed out is free again when it is taken back. -/
lemma release (h : p.Sized) (hlt : b.index < p.size)
    (hused : p.free.getLsbD b.index = false) :
    (p.release b).2.Sized ∧ (p.release b).2.size = p.size ∧
      (p.release b).2.available = p.available + 1 := by
  have hlt' : b.index < 64 := Nat.lt_of_lt_of_le hlt h.size_le
  have hand := (and_bit_eq_zero_iff p.free hlt').mpr hused
  have hbits := getLsbD_or_bit p.free hlt'
  have heq : (p.release b).2 = { p with free := p.free ||| 1#64 <<< b.index } := by
    simp [BufferPool.release, Nat.not_le.mpr hlt, hand]
  rw [heq]
  refine ⟨⟨h.size_le, fun {i} hi => ?_⟩, rfl, ?_⟩
  · simp only [hbits, Function.update_apply] at hi
    split at hi
    · rename_i hib
      exact hib ▸ hlt
    · exact h.lt_size hi
  · rw [available_eq, available_eq]
    simp only [hbits]
    exact Network.countP_update List.nodup_range (List.mem_range.mpr hlt') hused

end Sized

/-! ### Books -/

/-- The books of a producer whose outputs name these buffers: its pool handed out the one
in the first output, the other outputs name none, and the free buffers, the one in the
output and the lost ones are all that there are. -/
structure Covers (p : BufferPool) (names : List (Option BufferId)) (lost : Nat) : Prop
    extends p.Sized where
  handed : ∀ {b}, names.head?.join = some b →
    b.index < p.size ∧ p.free.getLsbD b.index = false
  tail : ∀ o ∈ names.tail, o = none
  balance : p.available + (if names.head?.join.isSome then 1 else 0) + lost = p.size

variable {names rest : List (Option BufferId)} {lost : Nat}

/-- Nothing is lost of a whole pool. -/
lemma Whole.covers (h : p.Whole) : p.Covers [] 0 where
  toSized := h.sized.1
  handed hb := by cases hb
  tail o ho := by cases ho
  balance := h.sized.2

/-- A further output names nothing. -/
lemma Covers.append_none (h : p.Covers names lost) : p.Covers (names ++ [none]) lost := by
  have hhead : (names ++ [none]).head?.join = names.head?.join := by
    rcases names with _ | ⟨o, rest⟩ <;> rfl
  refine ⟨h.toSized, fun hb => h.handed (hhead ▸ hb), fun o ho => ?_, by
    rw [hhead]
    exact h.balance⟩
  rcases names with _ | ⟨o', rest⟩
  · cases ho
  · rcases List.mem_append.mp (show o ∈ rest ++ [none] from ho) with ho | ho
    · exact h.tail o ho
    · exact List.mem_singleton.mp ho

/-- Nothing is left of a pool whose buffers are lost. -/
lemma Covers.eq_of_lost (h : p.Covers names lost) (hlost : lost = p.size) :
    p.available = 0 ∧ names.head?.join = none := by
  have hbalance := h.balance
  split at hbalance
  · omega
  · rename_i hnone
    exact ⟨by omega, by simpa using hnone⟩

/-- If the outputs name nothing any more then what the first one named is lost. -/
lemma Covers.lose (h : p.Covers names lost) (hrest : ∀ o ∈ rest, o = none) :
    p.Covers rest (lost + if names.head?.join.isSome then 1 else 0) := by
  have hhead : rest.head?.join = none := by
    rcases rest with _ | ⟨o, rest⟩
    · rfl
    · exact hrest o (by simp)
  refine ⟨h.toSized, fun hb => (by rw [hhead] at hb; cases hb),
    fun o ho => hrest o (List.mem_of_mem_tail ho), ?_⟩
  have hbalance := h.balance
  rw [hhead, Option.isSome_none, if_neg (by simp)]
  omega

/-- The buffer that the first output names is recycled, and another one is put there. If
there is none to put there then all are lost. -/
theorem Covers.refill {o o' : Option BufferId} (h : p.Covers (o :: rest) lost)
    (hacq : (p.recycle o).acquire = (o', q)) :
    q.size = p.size ∧ q.Covers (o' :: rest) lost ∧ (o' = none → lost = p.size) := by
  have hbalance := h.balance
  simp only [List.head?_cons, Option.join_some] at hbalance
  -- the pool after the buffer was taken back
  obtain ⟨hsized, hsize, havailable⟩ : (p.recycle o).Sized ∧
      (p.recycle o).size = p.size ∧ (p.recycle o).available + lost = p.size := by
    cases o with
    | none => exact ⟨h.toSized, rfl, by simpa [recycle] using hbalance⟩
    | some b =>
        obtain ⟨hlt, hused⟩ := h.handed (b := b) rfl
        obtain ⟨hsized, hsize, hfree⟩ := h.toSized.release hlt hused
        refine ⟨hsized, hsize, ?_⟩
        simp only [recycle, hfree]
        simpa using hbalance
  cases o' with
  | none =>
      obtain ⟨rfl, hnone⟩ := hsized.acquire_none hacq
      refine ⟨hsize, ⟨hsized, fun hb => (by cases hb), h.tail, ?_⟩, fun _ => by omega⟩
      rw [hsize]
      exact havailable
  | some b =>
      obtain ⟨hsized', hsize', hfree, hlt, hused⟩ := hsized.acquire_some hacq
      refine ⟨hsize'.trans hsize, ⟨hsized', fun hb => ?_, h.tail, ?_⟩,
        fun hnone => (by cases hnone)⟩
      · obtain rfl := Option.some.inj hb
        exact ⟨hlt, hused⟩
      · simp only [List.head?_cons, Option.join_some, Option.isSome_some, if_true]
        omega

/-- Some outputs lose their slots, and are gone or not. The buffer that the slot of the
first output named is lost with the slot. -/
theorem Covers.trim {l l' : List PortId} {c c' : PortId → Option Slot}
    (h : p.Covers (l.map fun q => (c q).bind (·.buffer)) lost) (hl : l.Nodup)
    (hsub : l'.Sublist l) (hkept : ∀ q, c' q = c q ∨ c' q = none)
    (hgone : ∀ q ∈ l, q ∉ l' → c' q = none) :
    p.Covers (l'.map fun q => (c' q).bind (·.buffer))
      (lost + if l.head?.any fun q => (c q).any (·.buffer.isSome) && (c' q).isNone
        then 1 else 0) := by
  cases l with
  | nil =>
      obtain rfl := List.sublist_nil.mp hsub
      exact h
  | cons q₀ l =>
      have hnone : ∀ q ∈ l, (c' q).bind (·.buffer) = none := by
        intro q hq
        rcases hkept q with hc | hc
        · rw [hc]
          exact h.tail _ (List.mem_map.mpr ⟨q, hq, rfl⟩)
        · rw [hc]
          rfl
      have hbalance := h.balance
      have hnamed : (c q₀).any (·.buffer.isSome) = ((c q₀).bind (·.buffer)).isSome := by
        cases c q₀ <;> rfl
      simp only [List.map_cons, List.head?_cons, Option.join_some, ← hnamed] at hbalance
      simp only [List.head?_cons, Option.any_some]
      -- what the first output named is lost if its slot is gone
      have hlose : c' q₀ = none →
          (∀ q ∈ l', (c' q).bind (·.buffer) = none) → p.Covers
            (l'.map fun q => (c' q).bind (·.buffer))
            (lost + if (c q₀).any (·.buffer.isSome) && (c' q₀).isNone then 1 else 0) := by
        intro hq₀ hall
        have hnames : ∀ o ∈ l'.map fun q => (c' q).bind (·.buffer), o = none := by
          simpa using hall
        simpa [hq₀, hnamed] using h.lose hnames
      rcases List.sublist_cons_iff.mp hsub with hrest | ⟨r, rfl, hrest⟩
      · exact hlose (hgone q₀ List.mem_cons_self fun hq =>
          (List.nodup_cons.mp hl).1 (hrest.subset hq)) fun q hq => hnone q (hrest.subset hq)
      · rcases hkept q₀ with hc | hc
        · refine ⟨h.toSized, fun hb => ?_, fun o ho => ?_, ?_⟩
          · simp only [List.map_cons, List.head?_cons, Option.join_some, hc] at hb
            exact h.handed hb
          · obtain ⟨q, hq, rfl⟩ := List.mem_map.mp (show o ∈ r.map _ from ho)
            exact hnone q (hrest.subset hq)
          · simp only [List.map_cons, List.head?_cons, Option.join_some, hc, ← hnamed]
            cases hq₀ : c q₀ with
            | none => simpa [hq₀] using hbalance
            | some x => simpa [hq₀] using hbalance
        · refine hlose hc fun q hq => ?_
          rcases List.mem_cons.mp hq with rfl | hq
          · rw [hc]
            rfl
          · exact hnone q (hrest.subset hq)

end MediaGraph.BufferPool

/-
A buffer pool is a set of free names.

* `BufferPool.names`, `BufferPool.freeNames`: the names that a pool can hand out, and
  those that it can hand out now;
* `BufferPool.freeWith`: those that it could hand out if one more was taken back;
* `BufferPool.acquire_of_isLeast`, `BufferPool.acquire_of_empty`: the least free name is
  handed out and is not free any more, and there is nothing to hand out exactly when no
  name is free;
* `BufferPool.freeNames_recycle`: a buffer that is taken back is free, if the pool has
  such a name.

No pool is assumed to be one that can arise: a mask may have bits set that no buffer has,
and a size may be beyond the limit.
-/
import MediaGraph.Proofs.Ledger.Calls

namespace MediaGraph.BufferPool

variable {p : BufferPool} {i : ℕ}

/-! ### Names -/

/-- The names of the buffers of a pool. -/
def names (p : BufferPool) : Finset ℕ := Finset.range (min p.size poolLimit)

/-- The names that are free. -/
def freeNames (p : BufferPool) : Finset ℕ := p.names.filter fun i => p.free.getLsbD i = true

/-- The names that are free once this buffer is taken back. A buffer that was never part
of the pool makes no difference. -/
def freeWith (p : BufferPool) (o : Option BufferId) : Finset ℕ :=
  p.names.filter fun i => p.free.getLsbD i = true ∨ o = some ⟨i⟩

lemma mem_names : i ∈ p.names ↔ i < p.size ∧ i < 64 := by
  simp [names, poolLimit]

lemma mem_freeNames : i ∈ p.freeNames ↔ i < p.size ∧ p.free.getLsbD i = true := by
  rw [freeNames, Finset.mem_filter, mem_names]
  refine ⟨fun h => ⟨h.1.1, h.2⟩, fun h => ⟨⟨h.1, ?_⟩, h.2⟩⟩
  by_contra hi
  rw [BitVec.getLsbD_of_ge _ _ (Nat.not_lt.mp hi)] at h
  cases h.2

/-! ### Handing out -/

/-- The pool once a name is handed out. -/
def without (p : BufferPool) (i : ℕ) : BufferPool := { p with free := p.free ^^^ (1#64 <<< i) }

/-- A free name is all that is gone when it is handed out. -/
lemma freeNames_without (hi : i ∈ p.freeNames) :
    (p.without i).freeNames = p.freeNames.erase i := by
  have hlt : i < 64 := (mem_names.mp (Finset.mem_filter.mp hi).1).2
  ext k
  rw [Finset.mem_erase, mem_freeNames, mem_freeNames, without,
    getLsbD_xor_bit hlt (mem_freeNames.mp hi).2]
  rcases eq_or_ne k i with rfl | hk
  · simp
  · simp [hk]

/-- The least free name is handed out. -/
lemma acquire_of_isLeast (h : IsLeast (p.freeNames : Set ℕ) i) :
    p.acquire = (some ⟨i⟩, p.without i) := by
  obtain ⟨hlt, hfree⟩ := mem_freeNames.mp (Finset.mem_coe.mp h.1)
  have hfind : (List.range p.size).find? p.free.getLsbD = some i := by
    rw [List.find?_range_eq_some]
    refine ⟨hfree, List.mem_range.mpr hlt, fun k hk => ?_⟩
    rw [Bool.not_eq_true']
    by_contra hne
    have hmem : k ∈ p.freeNames :=
      mem_freeNames.mpr ⟨Nat.lt_trans hk hlt, Bool.eq_true_of_not_eq_false hne⟩
    exact absurd (h.2 (Finset.mem_coe.mpr hmem)) (Nat.not_le.mpr hk)
  rw [acquire, hfind]
  rfl

/-- If no name is free then none is handed out. -/
lemma acquire_of_empty (h : p.freeNames = ∅) : p.acquire = (none, p) := by
  have hfind : (List.range p.size).find? p.free.getLsbD = none := by
    rw [List.find?_eq_none]
    intro k hk hfree
    have hmem : k ∈ p.freeNames := mem_freeNames.mpr ⟨List.mem_range.mp hk, hfree⟩
    rw [h] at hmem
    simp at hmem
  rw [acquire, hfind]

/-! ### Taking back -/

/-- A name of a pool is free after a buffer is taken back if it was so before or is the
name of that buffer. -/
lemma getLsbD_release {b : BufferId} {k : ℕ} (hk : k < p.size) (hlt : k < 64) :
    (p.release b).2.free.getLsbD k = true ↔ p.free.getLsbD k = true ∨ k = b.index := by
  rw [release]
  split
  · -- the pool has no such buffer
    rename_i hle
    simp [Nat.ne_of_lt (Nat.lt_of_lt_of_le hk hle)]
  · dsimp only
    rcases Nat.lt_or_ge b.index 64 with hb | hb
    · split
      · -- it is free already
        rename_i hand
        have hfree : p.free.getLsbD b.index = true := by
          simpa [and_bit_eq_zero_iff p.free hb] using hand
        exact ⟨Or.inl, fun h => h.elim id fun he => he ▸ hfree⟩
      · rw [getLsbD_or_bit p.free hb, Function.update_apply]
        split
        · simp [*]
        · simp [*]
    · -- its bit is beyond the mask
      have hbit : 1#64 <<< b.index = 0#64 := BitVec.shiftLeft_eq_zero hb
      simp [hbit, Nat.ne_of_lt (Nat.lt_of_lt_of_le hlt hb)]

/-- A buffer that is taken back is free, if the pool has such a name. -/
lemma freeNames_release (p : BufferPool) (b : BufferId) :
    (p.release b).2.freeNames = p.freeWith (some b) := by
  have hsize : (p.release b).2.size = p.size := size_recycle p (some b)
  ext k
  rw [freeNames, freeWith, Finset.mem_filter, Finset.mem_filter, names, hsize]
  refine and_congr_right fun hk => ?_
  obtain ⟨hk, hlt⟩ := mem_names.mp hk
  rw [getLsbD_release hk hlt, Option.some.injEq, BufferId.ext_iff, @eq_comm ℕ k]

lemma freeNames_recycle (p : BufferPool) (o : Option BufferId) :
    (p.recycle o).freeNames = p.freeWith o := by
  cases o with
  | none =>
      ext k
      rw [recycle, freeNames, freeWith]
      simp
  | some b => exact freeNames_release p b

/-- What is handed out once a buffer is taken back. -/
lemma acquire_recycle_of_isLeast {o : Option BufferId}
    (h : IsLeast (p.freeWith o : Set ℕ) i) :
    ∃ q, (p.recycle o).acquire = (some ⟨i⟩, q) ∧ q.size = p.size ∧
      q.freeNames = (p.freeWith o).erase i := by
  rw [← freeNames_recycle] at h ⊢
  exact ⟨_, acquire_of_isLeast h, size_recycle p o, freeNames_without (Finset.mem_coe.mp h.1)⟩

lemma acquire_recycle_of_empty {o : Option BufferId} (h : p.freeWith o = ∅) :
    (p.recycle o).acquire = (none, p.recycle o) :=
  acquire_of_empty ((freeNames_recycle p o).trans h)

end MediaGraph.BufferPool

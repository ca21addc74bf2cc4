/-
A buffer pool is a set of free names, whatever is done with it.

* `BufferPool.Operation`, `BufferPool.after`: what can be done with a pool, and what
  becomes of it;
* `BufferPool.Offers`: the mask of a pool of some size stands for a set of names;
* `Sized.offers`: it stands for the free ones, and keeps doing so (`Sized.after`);
* `Sized.exists_release`: a name that becomes free was taken back;
* `BufferPool.bit?`: the word with one bit, which cannot be shifted by its width;
* `BufferPool.ofSize?`, `BufferPool.acquire?`, `BufferPool.release?`: the operations
  on words alone, which fail if such a shift is asked for, and never do
  (`ofSize?_eq`, `Sized.acquire?_eq`, `Sized.release?_eq`);
* `BufferPool.offers_after`: all of this after every sequence of operations.
-/
import MediaGraph.Proofs.FreeBuffers

namespace MediaGraph.BufferPool

variable {p : BufferPool} {b : BufferId} {i : ℕ}

/-! ### Operations -/

/-- What can be done with a pool. -/
inductive Operation where
  | acquire
  | release (buffer : BufferId)
deriving DecidableEq, Repr

/-- The pool that an operation leaves behind. -/
def Operation.apply : Operation → BufferPool → BufferPool
  | acquire, p => p.acquire.2
  | release b, p => (p.release b).2

/-- What operations, one after the other, make of a pool. -/
def after (p : BufferPool) (ops : List Operation) : BufferPool :=
  ops.foldl (fun q op => op.apply q) p

lemma after_cons (p : BufferPool) (op : Operation) (ops : List Operation) :
    p.after (op :: ops) = (op.apply p).after ops := rfl

lemma after_append (p : BufferPool) (ops ops' : List Operation) :
    p.after (ops ++ ops') = (p.after ops).after ops' :=
  List.foldl_append

/-! ### Handing out -/

/-- Either no name is free and none is handed out, or the least one is. -/
lemma acquire_cases (p : BufferPool) :
    (p.freeNames = ∅ ∧ p.acquire = (none, p)) ∨
      ∃ i, IsLeast (p.freeNames : Set ℕ) i ∧ p.acquire = (some ⟨i⟩, p.without i) := by
  rcases p.freeNames.eq_empty_or_nonempty with hempty | hne
  · exact Or.inl ⟨hempty, acquire_of_empty hempty⟩
  · have hmin := p.freeNames.isLeast_min' hne
    exact Or.inr ⟨_, hmin, acquire_of_isLeast hmin⟩

/-- A name is handed out unless none is free. -/
lemma acquire_eq_none_iff (p : BufferPool) : p.acquire.1 = none ↔ p.freeNames = ∅ := by
  rcases p.acquire_cases with ⟨hempty, hacq⟩ | ⟨i, hi, hacq⟩
  · simp [hempty, hacq]
  · have hne : p.freeNames ≠ ∅ := Finset.ne_empty_of_mem (Finset.mem_coe.mp hi.1)
    simp [hne, hacq]

/-- A name that is handed out was free, and is the only one that is not any more. -/
lemma freeNames_of_acquire (hacq : p.acquire.1 = some ⟨i⟩) :
    i ∈ p.freeNames ∧ p.acquire.2.freeNames = p.freeNames.erase i := by
  rcases p.acquire_cases with ⟨-, heq⟩ | ⟨k, hk, heq⟩
  · rw [heq] at hacq
    cases hacq
  · rw [heq] at hacq ⊢
    obtain rfl : k = i := congrArg BufferId.index (Option.some.inj hacq)
    have hmem := Finset.mem_coe.mp hk.1
    exact ⟨hmem, freeNames_without hmem⟩

/-- No name becomes free when one is handed out. -/
lemma freeNames_acquire_subset (p : BufferPool) : p.acquire.2.freeNames ⊆ p.freeNames := by
  rcases p.acquire_cases with ⟨-, hacq⟩ | ⟨i, hi, hacq⟩
  · rw [hacq]
  · rw [hacq, freeNames_without (Finset.mem_coe.mp hi.1)]
    exact Finset.erase_subset i _

/-! ### Masks and sets -/

/-- A pool of this size can hand out the names in `F`, and its mask says so. -/
structure Offers (p : BufferPool) (size : ℕ) (F : Finset ℕ) : Prop where
  size_eq : p.size = size
  lt_size : ∀ i ∈ F, i < size
  /-- No other bit is set, not even beyond the size. -/
  mask : ∀ i, p.free.getLsbD i = true ↔ i ∈ F
  available : p.available = F.card

namespace Sized

/-- A name is free if its bit is set. -/
lemma mem_freeNames (h : p.Sized) : i ∈ p.freeNames ↔ p.free.getLsbD i = true :=
  BufferPool.mem_freeNames.trans ⟨And.right, fun hi => ⟨h.lt_size hi, hi⟩⟩

lemma notMem_freeNames (h : p.Sized) : i ∉ p.freeNames ↔ p.free.getLsbD i = false := by
  rw [h.mem_freeNames, Bool.not_eq_true]

/-- The bits of the mask are counted as the free names are. -/
lemma available_eq_card (h : p.Sized) : p.available = p.freeNames.card := by
  have hset : p.freeNames = ((List.range 64).filter p.free.getLsbD).toFinset := by
    ext i
    rw [List.mem_toFinset, List.mem_filter, List.mem_range, h.mem_freeNames]
    exact ⟨fun hi => ⟨Nat.lt_of_lt_of_le (h.lt_size hi) h.size_le, hi⟩, And.right⟩
  rw [hset, List.toFinset_card_of_nodup (List.nodup_range.filter _), available_eq,
    List.countP_eq_length_filter]

/-- The mask of a pool stands for its free names. -/
lemma offers (h : p.Sized) : p.Offers p.size p.freeNames where
  size_eq := rfl
  lt_size _ hi := h.lt_size (h.mem_freeNames.mp hi)
  mask _ := h.mem_freeNames.symm
  available := h.available_eq_card

/-! ### Taking back -/

/-- A buffer that was handed out is taken back. -/
lemma release_eq_true (h : p.Sized) (hlt : b.index < p.size)
    (hused : b.index ∉ p.freeNames) : (p.release b).1 = true := by
  have hand := (and_bit_eq_zero_iff p.free (Nat.lt_of_lt_of_le hlt h.size_le)).mpr
    (h.notMem_freeNames.mp hused)
  simp [BufferPool.release, Nat.not_le.mpr hlt, hand]

/-- No other buffer is taken back. -/
lemma release_eq_false (h : p.Sized) (hb : ¬ (b.index < p.size ∧ b.index ∉ p.freeNames)) :
    p.release b = (false, p) := by
  rw [BufferPool.release]
  split
  · rfl
  · rename_i hle
    have hfree : p.free.getLsbD b.index = true := by
      rw [← h.mem_freeNames]
      by_contra hused
      exact hb ⟨Nat.lt_of_not_le hle, hused⟩
    have hand : p.free &&& (1#64 <<< b.index) ≠ 0#64 := by
      rw [ne_eq, and_bit_eq_zero_iff p.free
        (Nat.lt_of_lt_of_le (h.lt_size hfree) h.size_le), hfree]
      simp
    exact if_pos hand

/-- The name of a buffer that is taken back is free, as all that were. -/
lemma freeNames_release (h : p.Sized) (hlt : b.index < p.size) :
    (p.release b).2.freeNames = insert b.index p.freeNames := by
  ext i
  rw [BufferPool.freeNames_release, Finset.mem_insert, h.mem_freeNames, freeWith,
    Finset.mem_filter, mem_names, Option.some.injEq, BufferId.ext_iff]
  have hsize := h.size_le
  constructor
  · rintro ⟨-, hi | hi⟩
    · exact Or.inr hi
    · exact Or.inl hi.symm
  · rintro (rfl | hi)
    · exact ⟨⟨hlt, Nat.lt_of_lt_of_le hlt hsize⟩, Or.inr rfl⟩
    · exact ⟨⟨h.lt_size hi, Nat.lt_of_lt_of_le (h.lt_size hi) hsize⟩, Or.inl hi⟩

/-! ### Histories -/

/-- No operation sets a bit that no buffer has. -/
lemma apply (h : p.Sized) (op : Operation) :
    (op.apply p).Sized ∧ (op.apply p).size = p.size := by
  cases op with
  | acquire =>
      rw [Operation.apply]
      rcases hacq : p.acquire with ⟨_ | b, q⟩
      · obtain ⟨rfl, -⟩ := h.acquire_none hacq
        exact ⟨h, rfl⟩
      · obtain ⟨hsized, hsize, -⟩ := h.acquire_some hacq
        exact ⟨hsized, hsize⟩
  | release b =>
      by_cases hb : b.index < p.size ∧ b.index ∉ p.freeNames
      · obtain ⟨hsized, hsize, -⟩ := h.release hb.1 (h.notMem_freeNames.mp hb.2)
        exact ⟨hsized, hsize⟩
      · rw [Operation.apply, h.release_eq_false hb]
        exact ⟨h, rfl⟩

/-- Nor does any sequence of them. -/
lemma after (h : p.Sized) (ops : List Operation) :
    (p.after ops).Sized ∧ (p.after ops).size = p.size := by
  induction ops generalizing p with
  | nil => exact ⟨h, rfl⟩
  | cons op ops ih =>
      obtain ⟨hsized, hsize⟩ := h.apply op
      rw [after_cons, ← hsize]
      exact ih hsized

/-- The pool that an operation leaves behind stands for its free names as well. -/
lemma offers_apply (h : p.Sized) (op : Operation) :
    (op.apply p).Offers p.size (op.apply p).freeNames := by
  obtain ⟨hsized, hsize⟩ := h.apply op
  rw [← hsize]
  exact hsized.offers

/-- An operation by which a name becomes free takes it back. -/
lemma eq_release_of_mem (h : p.Sized) {op : Operation} (hused : i ∉ p.freeNames)
    (hfree : i ∈ (op.apply p).freeNames) :
    op = .release ⟨i⟩ ∧ (p.release ⟨i⟩).1 = true := by
  cases op with
  | acquire => exact absurd (p.freeNames_acquire_subset hfree) hused
  | release b =>
      rw [Operation.apply] at hfree
      by_cases hb : b.index < p.size ∧ b.index ∉ p.freeNames
      · rw [h.freeNames_release hb.1, Finset.mem_insert] at hfree
        obtain rfl := hfree.resolve_right hused
        exact ⟨rfl, h.release_eq_true hb.1 hb.2⟩
      · rw [h.release_eq_false hb] at hfree
        exact absurd hfree hused

/-- A name that is free after some operations, and was not before, was taken back by
one of them. -/
lemma exists_release (h : p.Sized) {ops : List Operation} (hused : i ∉ p.freeNames)
    (hfree : i ∈ (p.after ops).freeNames) :
    ∃ A B, ops = A ++ .release ⟨i⟩ :: B ∧ ((p.after A).release ⟨i⟩).1 = true := by
  induction ops generalizing p with
  | nil => exact absurd hfree hused
  | cons op ops ih =>
      -- the first operation frees the name, or a later one does
      by_cases hop : i ∈ (op.apply p).freeNames
      · obtain ⟨rfl, hreply⟩ := h.eq_release_of_mem hused hop
        exact ⟨[], ops, rfl, hreply⟩
      · obtain ⟨A, B, rfl, hreply⟩ := ih (h.apply op).1 hop hfree
        exact ⟨op :: A, B, rfl, hreply⟩

/-- A name that is handed out twice was taken back in between. -/
lemma exists_release_of_acquire (h : p.Sized) {ops : List Operation}
    (hfirst : p.acquire.1 = some ⟨i⟩) (hagain : (p.acquire.2.after ops).acquire.1 = some ⟨i⟩) :
    ∃ A B, ops = A ++ .release ⟨i⟩ :: B ∧
      ((p.acquire.2.after A).release ⟨i⟩).1 = true := by
  have hused : i ∉ p.acquire.2.freeNames := by
    rw [(freeNames_of_acquire hfirst).2]
    exact Finset.notMem_erase i _
  have hsized : p.acquire.2.Sized := (h.apply .acquire).1
  exact hsized.exists_release hused (freeNames_of_acquire hagain).1

end Sized

lemma sized_ofSize (n : ℕ) : (ofSize n).Sized := (Whole.sized ⟨n, rfl⟩).1

/-- All names of a new pool are free. -/
lemma freeNames_ofSize (n : ℕ) :
    (ofSize n).freeNames = Finset.range (max 1 (min n poolLimit)) := by
  have hwhole : (ofSize n).Whole := ⟨n, rfl⟩
  ext i
  rw [(sized_ofSize n).mem_freeNames, hwhole.getLsbD_eq, decide_eq_true_eq, Finset.mem_range]
  rfl

/-! ### Words -/

/-- The word with this bit alone. A word cannot be shifted by its width. -/
def bit? (i : ℕ) : Option (BitVec 64) := if i < 64 then some (1#64 <<< i) else none

/-- `ofSize`, if no shift fails. -/
def ofSize? (n : ℕ) : Option BufferPool :=
  let size := max 1 (min n poolLimit)
  if size = 64 then some { size, free := .allOnes 64 }
  else (bit? size).map fun bit => { size, free := bit - 1#64 }

/-- `acquire` by counting the zeros below the least bit of the mask, if no shift
fails. -/
def acquire? (p : BufferPool) : Option (Option BufferId × BufferPool) :=
  if p.free = 0#64 then some (none, p)
  else
    let id := p.free.ctz.toNat
    (bit? id).map fun bit => (some ⟨id⟩, { p with free := p.free &&& ~~~bit })

/-- `release`, if no shift fails. -/
def release? (p : BufferPool) (b : BufferId) : Option (Bool × BufferPool) :=
  if p.size ≤ b.index then some (false, p)
  else (bit? b.index).map fun bit =>
    if p.free &&& bit ≠ 0#64 then (false, p) else (true, { p with free := p.free ||| bit })

lemma bit?_of_lt (hi : i < 64) : bit? i = some (1#64 <<< i) := if_pos hi

/-- The full mask of 64 bits is not made by a shift, and every smaller one can be. -/
lemma ofSize?_eq (n : ℕ) : ofSize? n = some (ofSize n) := by
  rw [ofSize?, ofSize]
  split
  · rfl
  · rename_i hne
    have hle : max 1 (min n poolLimit) ≤ 64 := by
      rw [poolLimit]
      omega
    rw [bit?_of_lt (Nat.lt_of_le_of_ne hle hne)]
    rfl

/-- Counting zeros finds the least bit. -/
lemma Sized.isLeast_ctz (h : p.Sized) (hne : p.free ≠ 0#64) :
    IsLeast (p.freeNames : Set ℕ) p.free.ctz.toNat := by
  refine ⟨Finset.mem_coe.mpr (h.mem_freeNames.mpr (BitVec.getLsbD_true_ctz_of_ne_zero hne)),
    fun k hk => ?_⟩
  by_contra hlt
  have hclear := BitVec.getLsbD_false_of_lt_ctz (Nat.lt_of_not_le hlt)
  rw [h.mem_freeNames.mp (Finset.mem_coe.mp hk)] at hclear
  cases hclear

/-- A bit that is set is cleared by either operation. -/
lemma and_not_bit {x : BitVec 64} (hi : i < 64) (hset : x.getLsbD i = true) :
    x &&& ~~~(1#64 <<< i) = x ^^^ (1#64 <<< i) := by
  refine BitVec.eq_of_getLsbD_eq fun k hk => ?_
  rw [getLsbD_xor_bit hi hset, BitVec.getLsbD_and, BitVec.getLsbD_not, getLsbD_bit hi,
    Function.update_apply]
  by_cases hki : k = i
  · simp [hki]
  · simp [hki, hk]

/-- The least free name is below 64 if there is one. -/
lemma Sized.acquire?_eq (h : p.Sized) : p.acquire? = some p.acquire := by
  rw [acquire?]
  split
  · -- a mask without bits has 64 zeros, and is not asked for a bit
    rename_i hzero
    have hempty : p.freeNames = ∅ := by
      ext i
      rw [h.mem_freeNames, hzero]
      simp
    rw [acquire_of_empty hempty]
  · rename_i hne
    have hleast := h.isLeast_ctz hne
    have hset := BitVec.getLsbD_true_ctz_of_ne_zero hne
    have hlt : p.free.ctz.toNat < 64 := Nat.lt_of_lt_of_le (h.lt_size hset) h.size_le
    rw [acquire_of_isLeast hleast, without, ← and_not_bit hlt hset]
    dsimp only
    rw [bit?_of_lt hlt]
    rfl

/-- The names of a pool are below 64. -/
lemma Sized.release?_eq (h : p.Sized) (b : BufferId) : p.release? b = some (p.release b) := by
  rw [release?, BufferPool.release]
  split
  · rfl
  · rename_i hle
    rw [bit?_of_lt (Nat.lt_of_lt_of_le (Nat.lt_of_not_le hle) h.size_le)]
    rfl

/-! ### Every sequence of operations -/

/-- Whatever size is asked for, brought into the range from 1 to 64, all names below it
are free at first. After any operations the mask is that of a set `F` of names below
the size, and as many buffers are available as it has members. The least member of
`F` is handed out and leaves it, and nothing is handed out exactly if `F` is empty. A
buffer whose name is below the size and not in `F` is taken back, and joins it; any other
one is refused. A name is not handed out a second time unless it was taken back in
between. No shift is by 64 or more. -/
theorem offers_after (n : ℕ) (ops : List Operation) :
    let size := max 1 (min n poolLimit)
    let p := (ofSize n).after ops
    let F := p.freeNames
    (ofSize n).Offers size (Finset.range size) ∧ p.Offers size F ∧
      (p.acquire.1 = none ↔ F = ∅) ∧
      (F = ∅ → p.acquire = (none, p)) ∧
      (∀ i, IsLeast (F : Set ℕ) i →
        p.acquire.1 = some ⟨i⟩ ∧ p.acquire.2.Offers size (F.erase i)) ∧
      (∀ b, b.index < size ∧ b.index ∉ F →
        (p.release b).1 = true ∧ (p.release b).2.Offers size (insert b.index F)) ∧
      (∀ b, ¬ (b.index < size ∧ b.index ∉ F) → p.release b = (false, p)) ∧
      (∀ i ops', p.acquire.1 = some ⟨i⟩ →
        ((ofSize n).after (ops ++ .acquire :: ops')).acquire.1 = some ⟨i⟩ →
        ∃ A B, ops' = A ++ .release ⟨i⟩ :: B ∧
          (((ofSize n).after (ops ++ .acquire :: A)).release ⟨i⟩).1 = true) ∧
      ofSize? n = some (ofSize n) ∧ p.acquire? = some p.acquire ∧
      (∀ b, p.release? b = some (p.release b)) := by
  intro size p F
  have hnew := sized_ofSize n
  obtain ⟨hsized, hsize⟩ : p.Sized ∧ p.size = size := hnew.after ops
  refine ⟨freeNames_ofSize n ▸ hnew.offers, hsize ▸ hsized.offers, p.acquire_eq_none_iff,
    acquire_of_empty, fun i hi => ?_, fun b hb => ?_, fun b hb => ?_, fun i ops' h₁ h₂ => ?_,
    ofSize?_eq n, hsized.acquire?_eq, hsized.release?_eq⟩
  · have hfirst : p.acquire.1 = some ⟨i⟩ := congrArg Prod.fst (acquire_of_isLeast hi)
    rw [← (freeNames_of_acquire hfirst).2, ← hsize]
    exact ⟨hfirst, hsized.offers_apply .acquire⟩
  · rw [← hsize] at hb ⊢
    rw [← hsized.freeNames_release hb.1]
    exact ⟨hsized.release_eq_true hb.1 hb.2, hsized.offers_apply (.release b)⟩
  · rw [← hsize] at hb
    exact hsized.release_eq_false hb
  · rw [after_append, after_cons] at h₂
    obtain ⟨A, B, rfl, hreply⟩ := hsized.exists_release_of_acquire h₁ h₂
    exact ⟨A, B, rfl, by rwa [after_append, after_cons]⟩

/-- The last name of a pool of 64 buffers, once all were handed out, is taken back
once, and is handed out again. -/
example :
    let p := (ofSize 64).after (List.replicate 64 .acquire)
    p.acquire.1 = none ∧ (p.release ⟨64⟩).1 = false ∧
      ((p.after [.release ⟨63⟩]).release ⟨63⟩).1 = false ∧
      (p.after [.release ⟨63⟩]).acquire.1 = some ⟨63⟩ := by
  decide +kernel

end MediaGraph.BufferPool

/-
Producers lend one buffer at a time.

* `BufferPool.Lends`: all buffers of a pool are free, or all but the least name, which
  was lent;
* `BufferPool.single`: the pool with that name alone;
* `Lends.acquire_recycle`, `Lends.acquire_single`: once it takes back what it lent, a pool
  lends the least name again, and so does the pool with that name alone;
* `Adapter.call_single`: an adapter replies as it does with that pool;
* `Description.Lending`, `Graph.Lending`: every producer lent what its output names;
* `Activated.lending`: so it is in every graph that a sequence of activations makes of a
  built one, and between the turns of an activation.
-/
import MediaGraph.Proofs.FreeBuffers
import MediaGraph.Proofs.Ledger.Rewiring
import MediaGraph.Proofs.Replacement

namespace MediaGraph

/-! ### Pools -/

namespace BufferPool

/-- All buffers of a pool are free, or all but the least name, which was lent. -/
inductive Lends : BufferPool → Option BufferId → Prop
  | nothing {p : BufferPool} : p.Whole → Lends p none
  | first {p : BufferPool} : p.Whole → Lends (p.without 0) (some ⟨0⟩)

/-- The pool that has only the least name. -/
def single (p : BufferPool) : BufferPool := { size := 1, free := p.free &&& 1#64 }

/-- The names that were handed out. -/
def lent (p : BufferPool) : Finset ℕ := p.names \ p.freeNames

variable {p : BufferPool} {o : Option BufferId}

lemma whole_ofSize (k : ℕ) : (ofSize k).Whole := ⟨k, rfl⟩

lemma Whole.acquire (h : p.Whole) : p.acquire = (some ⟨0⟩, p.without 0) :=
  acquire_of_isLeast ⟨Finset.mem_coe.mpr (mem_freeNames.mpr ⟨h.size_pos, h.getLsbD_zero⟩),
    fun k _ => Nat.zero_le k⟩

lemma Whole.recycle_without (h : p.Whole) : (p.without 0).recycle (some ⟨0⟩) = p := by
  obtain ⟨b, q, hacq, hrecycle⟩ := h.exists_acquire
  rw [h.acquire] at hacq
  cases hacq
  exact hrecycle

lemma Whole.freeNames_eq (h : p.Whole) : p.freeNames = p.names := by
  ext i
  rw [mem_freeNames, mem_names, h.getLsbD_eq, decide_eq_true_iff, and_self]
  exact ⟨fun hi => ⟨hi, Nat.lt_of_lt_of_le hi h.size_le⟩, And.left⟩

lemma Whole.lent (h : p.Whole) : p.lent = ∅ := by
  rw [BufferPool.lent, h.freeNames_eq, Finset.sdiff_self]

lemma Whole.lent_without (h : p.Whole) : (p.without 0).lent = {0} := by
  have hzero : 0 ∈ p.freeNames := mem_freeNames.mpr ⟨h.size_pos, h.getLsbD_zero⟩
  rw [BufferPool.lent, show (p.without 0).names = p.names from rfl, freeNames_without hzero,
    h.freeNames_eq]
  exact Finset.sdiff_erase_self (h.freeNames_eq ▸ hzero)

lemma Whole.single (h : p.Whole) : p.single = ofSize 1 := by
  have hfree : p.free &&& 1#64 = 1#64 := by
    refine BitVec.eq_of_getLsbD_eq fun i _ => ?_
    rw [BitVec.getLsbD_and, BitVec.getLsbD_one]
    rcases i with _ | i
    · simp [h.getLsbD_zero]
    · simp
  rw [BufferPool.single, hfree]
  rfl

lemma Whole.single_without (h : p.Whole) : (p.without 0).single = (ofSize 1).without 0 := by
  rw [BufferPool.single, show (p.without 0).free = p.free ^^^ 1#64 from rfl,
    (xor_one_and_or p.free h.getLsbD_zero).1]
  rfl

namespace Lends

/-- What was lent is what is missing. -/
lemma lent (h : p.Lends o) : p.lent = (o.map (·.index)).toFinset := by
  cases h with
  | nothing hw => exact hw.lent
  | first hw => exact hw.lent_without

lemma eq_zero {b : BufferId} (h : p.Lends (some b)) : b = ⟨0⟩ := by
  cases h
  rfl

/-- A pool lends the least name again once it takes back what it lent. -/
lemma acquire_recycle (h : p.Lends o) :
    ∃ q, (p.recycle o).acquire = (some ⟨0⟩, q) ∧ q.Lends (some ⟨0⟩) := by
  cases h with
  | nothing hw => exact ⟨_, hw.acquire, .first hw⟩
  | first hw =>
      rw [hw.recycle_without]
      exact ⟨_, hw.acquire, .first hw⟩

/-- So does the pool that has only that name. -/
lemma acquire_single (h : p.Lends o) {q : BufferPool}
    (hacq : (p.recycle o).acquire = (some ⟨0⟩, q)) :
    (p.single.recycle o).acquire = (some ⟨0⟩, q.single) := by
  have hone := whole_ofSize 1
  cases h with
  | nothing hw =>
      rw [recycle, hw.acquire] at hacq
      cases hacq
      rw [hw.single, hw.single_without, recycle, hone.acquire]
  | first hw =>
      rw [hw.recycle_without, hw.acquire] at hacq
      cases hacq
      rw [hw.single_without, hone.recycle_without, hone.acquire]

end Lends

end BufferPool

/-! ### Adapters -/

namespace Adapter

variable {τ : Type}

/-- An adapter whose pool, if it has one, is replaced. -/
def mapPool (f : BufferPool → BufferPool) : Adapter τ → Adapter τ
  | source s => source { s with pool := f s.pool }
  | mixer m => mixer { m with pool := f m.pool }
  | sink s => sink s
  | custom x => custom x

/-- An adapter replies as it does with a pool that has only the least name, if its pool
lent what its output names. -/
lemma call_single [Processor τ] {x : Adapter τ} {v : PortView}
    (h : ∀ {pool out}, x.pool? = some pool → v.output? 0 = some out → pool.Lends out.buffer)
    (side : Side) :
    Processor.call side (x.mapPool .single) v =
      (Processor.call side x v).map (mapPool .single) := by
  cases x with
  | source s =>
      cases side with
      | input => rfl
      | output =>
          change ofReply source (Source.produce _ v) = (ofReply source (s.produce v)).map _
          simp only [Source.produce]
          cases hout : v.output? 0 with
          | none => rfl
          | some out =>
              obtain ⟨q, hacq, -⟩ := (h rfl hout).acquire_recycle
              simp only [hacq, (h rfl hout).acquire_single hacq]
              split <;> rfl
  | mixer m =>
      have hmix : ofReply mixer (Mixer.mix { m with pool := m.pool.single } v) =
          (ofReply mixer (m.mix v)).map (mapPool .single : Adapter τ → Adapter τ) := by
        simp only [Mixer.mix]
        cases hout : v.output? 0 with
        | none => rfl
        | some out =>
            obtain ⟨q, hacq, -⟩ := (h rfl hout).acquire_recycle
            simp only [hacq, (h rfl hout).acquire_single hacq]
            split
            · rfl
            · split
              · rfl
              · split <;> rfl
      cases side <;> exact hmix
  | sink s => cases side <;> rfl
  | custom x => cases side <;> rfl

end Adapter

/-! ### Calls -/

namespace Network

variable {τ : Type} {N : Network} {n : NodeId} {slot slot' : PortId → Slot}
  {x x' : Adapter τ} {side : Side} {r : Except ProcessError Verdict}

/-- A producer that lent what its output names is left with such a pool. -/
lemma Acts.lends (hN : N.Proper) (h : N.Acts n slot x side r slot' x') {o : Option PortId}
    (ho : N.outputs n = [o])
    (hlends : ∀ pool, x.pool? = some pool → pool.Lends (o.bind fun p => (slot p).buffer))
    {pool : BufferPool} (hpool : x'.pool? = some pool) :
    pool.Lends (o.bind fun p => (slot' p).buffer) := by
  cases h with
  | notSupported | mute | keep | deaf | idle | hold => exact hlends _ hpool
  | dry ho' _ hacq | spill ho' _ _ _ hacq =>
      obtain rfl : o = some _ := by simpa [ho] using ho'
      obtain ⟨q, hq, -⟩ := (hlends _ rfl).acquire_recycle
      rw [Option.bind_some, hacq] at hq
      cases hq
  | produce ho' _ hacq | mix ho' _ _ _ hacq =>
      obtain rfl : o = some _ := by simpa [ho] using ho'
      obtain ⟨q, hq, hlent⟩ := (hlends _ rfl).acquire_recycle
      rw [Option.bind_some, hacq] at hq
      cases hq
      cases hpool
      rw [Option.bind_some, Function.update_self]
      exact hlent
  | consume | want => cases hpool
  | request =>
      cases o with
      | none => exact hlends _ hpool
      | some p =>
          have hp : p ∉ N.inputs n := hN.not_mem_inputs (by simp [targets_of_outputs ho])
          rw [Option.bind_some, onInputs, if_neg fun hc => hp hc.1]
          exact hlends _ hpool

end Network

/-! ### Turns -/

namespace Description

variable {τ : Type} {d : Description} {N : Network} {s : Flow (Adapter τ)}

/-- Every producer lent what its output names. -/
structure Lending (d : Description) (N : Network) (s : Flow (Adapter τ)) : Prop where
  staffed : d.Staffed s
  lends : ∀ {n x pool o}, s.processor n = some x → x.pool? = some pool →
    N.outputs n = [o] → pool.Lends (o.bind fun p => (s.slot p).buffer)

/-- Nothing was lent in an untouched flow. -/
lemma Untouched.lending (hN : d.Realized N) (h : d.Untouched N s) : d.Lending N s where
  staffed := h.staffed
  lends {n x pool o} hx hpool ho := by
    have hbuffer : (o.bind fun p => (s.slot p).buffer) = none := by
      cases o with
      | none => rfl
      | some p =>
          exact h.buffer_eq_none hN (n := n) (by simp [Network.targets_of_outputs ho])
    obtain ⟨size, rfl⟩ := h.exists_pool hx hpool
    rw [hbuffer]
    exact .nothing (BufferPool.whole_ofSize _)

namespace Lending

/-- What differs only in who waits for a turn lends as much. -/
lemma congr {t : Flow (Adapter τ)} (h : d.Lending N s) (hslot : t.slot = s.slot)
    (hprocessor : t.processor = s.processor) : d.Lending N t where
  staffed := ⟨fun hn => by rw [hprocessor]; exact h.staffed.kind hn,
    fun hn => by rw [hprocessor]; exact h.staffed.outside hn⟩
  lends hx hpool ho := by
    rw [hprocessor] at hx
    rw [hslot]
    exact h.lends hx hpool ho

/-- Every turn keeps that. -/
lemma serve [Processor τ] (hN : d.Realized N) (h : d.Lending N s) (D : Option NodeId)
    (n : NodeId) : d.Lending N (N.serve D n s).flow := by
  rcases h.staffed.serves hN D n with hserves | hidle
  · rcases hserves.data hN.proper with
      ⟨hslot, hp⟩ | ⟨x, side, r, slot, x', hx, -, hacts, hslot, hp⟩
    · exact h.congr hslot hp
    · refine ⟨h.staffed.serve hN D n, fun {m y pool o} hy hpool ho => ?_⟩
      rw [hp] at hy
      rw [hslot]
      rcases eq_or_ne m n with rfl | hm
      · rw [Function.update_self] at hy
        cases hy
        exact hacts.lends hN.proper ho (fun _ hpool => h.lends hx hpool ho) hpool
      · rw [Function.update_of_ne hm] at hy
        have hbuffer : (o.bind fun p => (slot p).buffer) =
            o.bind fun p => (s.slot p).buffer := by
          cases o with
          | none => rfl
          | some p =>
              exact hacts.buffer_of_ne hN.proper hm (by simp [Network.targets_of_outputs ho])
        rw [hbuffer]
        exact h.lends hy hpool ho
  · rw [hidle]
    exact h.congr rfl rfl

/-- Every activation keeps it. -/
lemma ends [Processor τ] (hN : d.Realized N) (h : d.Lending N s) {mode : Mode} {n : NodeId}
    {budget : Nat} {r : Except ActivationError Unit} {calls : List Callback}
    {t : Flow (Adapter τ)} (ht : N.Ends (some n) (s.start mode n) budget r calls t) :
    d.Lending N t.clear := by
  have hstart : d.Lending N (s.start mode n) := h.congr rfl rfl
  exact (ht.invariant hstart fun u m _ hu => hu.serve hN (some n) m).congr rfl rfl

/-- The output of a producer names what it lent. -/
lemma exists_names (hN : d.Realized N) (h : d.Lending N s) {n : NodeId} {x : Adapter τ}
    {pool : BufferPool} (hx : s.processor n = some x) (hpool : x.pool? = some pool) :
    ∃ o, N.names n s = [o] ∧ pool.Lends o := by
  have hsuits := h.staffed.suits hN hx
  obtain ⟨o, ho⟩ : ∃ o, N.outputs n = [o] := by
    cases x with
    | source | mixer => exact hsuits.2
    | sink | custom => cases hpool
  exact ⟨_, by rw [Network.names, ho, List.map_singleton], h.lends hx hpool ho⟩

/-- No buffer but the least of a pool is ever named. -/
lemma buffer_eq (hN : d.Realized N) (h : d.Lending N s) {m : NodeId} {q : PortId}
    (hq : q ∈ N.targets m) {b : BufferId} (hb : (s.slot q).buffer = some b) : b = ⟨0⟩ := by
  obtain ⟨spec, hspec, hkind⟩ := hN.exists_spec_of_target hq
  obtain ⟨x, hx, hx'⟩ := h.staffed.kind hspec
  obtain ⟨pool, hpool⟩ : ∃ pool, x.pool? = some pool := by
    cases x with
    | source s => exact ⟨_, rfl⟩
    | mixer m => exact ⟨_, rfl⟩
    | sink => exact absurd (Option.some.inj hx').symm hkind
    | custom => cases hx'
  obtain ⟨o, hnames, hlends⟩ := h.exists_names hN hx hpool
  have hmem : some b ∈ N.names m s := by
    rw [Network.names, List.mem_map]
    exact ⟨some q, List.reduceOption_mem_iff.mp hq, hb⟩
  rw [hnames, List.mem_singleton] at hmem
  exact (hmem ▸ hlends).eq_zero

end Lending

end Description

/-! ### Graphs -/

namespace Graph

variable {τ : Type}

/-- Every producer lent what its output names, and no other buffer but the least of a
pool is named. -/
structure Lending (g : Graph (Adapter τ)) : Prop where
  lends : ∀ {n x pool}, g.processor? n = some x → x.pool? = some pool →
    ∃ o, g.buffersOf n = [o] ∧ pool.Lends o
  named : ∀ {p c b}, g.slotOf? p = some c → c.buffer = some b → b = ⟨0⟩

variable {g g₀ : Graph (Adapter τ)} {Λ : Layout} {D : Option NodeId} {s : Flow (Adapter τ)}
  {d : Description}

lemma Shows.lending (hΛ : Λ.Proper) (hs : g.Shows Λ D s) (hN : d.Realized Λ.network)
    (h : d.Lending Λ.network s) : g.Lending where
  lends {n x pool} hx hpool := by
    rw [hs.processor?_eq] at hx
    rw [← hs.names_eq hΛ]
    exact h.exists_names hN hx hpool
  named hc hb := by
    obtain ⟨q, m, hq, rfl⟩ := hs.exists_slot hΛ hc
    exact h.buffer_eq hN hq hb

variable [Processor τ]

/-- If producers lent what their outputs name then all adapters reply as they do with
pools that have only the least name. -/
lemma Lending.mimics (h : g.Lending) : g.Mimics (Adapter.mapPool .single) where
  call {n node} hn side := by
    refine Adapter.call_single (fun {pool out} hpool hout => ?_) side
    obtain ⟨o, ho, hlends⟩ := h.lends (n := n) (by rw [processor?, hn]; rfl) hpool
    rw [buffersOf, outputsOf, hn] at ho
    obtain ⟨p, hp, rfl⟩ := List.map_eq_singleton_iff.mp ho
    have hslot : g.slotOf? p = some out := by
      simpa [view, PortView.output?, show node.outputs.toList = [p] from hp] using hout
    rwa [hslot, Option.bind_some] at hlends

/-- Every producer of a built graph lent what its output names, after any activations and
between the turns of the next one. -/
theorem Activated.lending {a : Assembly τ} (hok : Assembly.build d = .ok a)
    (hg : a.graph.Activated (fun _ _ _ => True) g) :
    g.Lending ∧ ∀ {n node mode t}, g.nodes.get? n = some node →
      (g.start mode n).TakesTurns t → t.Lending := by
  obtain ⟨Λ, s₀, hΛ, h₀, hN, huntouched⟩ := Assembly.shows_of_build hok
  obtain ⟨s, hs, hlending⟩ := hg.shows (P := d.Lending Λ.network) hΛ h₀
    (huntouched.lending hN) fun h _ ht => h.ends hN ht
  refine ⟨hs.lending hΛ hN hlending, fun {n node mode t} hn ht => ?_⟩
  obtain ⟨u, hu, hlent⟩ := ht.invariant (P := d.Lending Λ.network) hΛ
    (hs.start hΛ (hs.node hn) mode) (hlending.congr rfl rfl) fun u m _ hu => hu.serve hN _ m
  exact hu.lending hΛ hN hlent

end Graph

end MediaGraph

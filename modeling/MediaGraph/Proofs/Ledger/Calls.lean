/-
What turns do to the books of producers.

* `PortView.names`, `Network.names`: the buffers that the outputs of a node name;
* `Adapter.Books`, `Adapter.books`: what every call of a built-in adapter does to the
  buffers that its ports name and to its pool, whatever ports it has;
* `Network.Ledger`: the books of all producers;
* `Ledger.serve`: every turn keeps them;
* `Ledger.exhausted`: a call that finds its pool exhausted is one of a producer all
  buffers of which are lost.
-/
import MediaGraph.Proofs.Ledger.Pools

namespace MediaGraph

/-! ### Calls -/

/-- The buffers that the outputs of a node name. -/
def PortView.names (v : PortView) : List (Option BufferId) :=
  v.outputs.map (·.bind (·.buffer))

/-- A slot that holds data names it. -/
def Slot.Named (c : Slot) : Prop := c.hasData = true → c.buffer.isSome = true

/-- Every slot that a node sees names the data that it holds. -/
structure PortView.Named (v : PortView) : Prop where
  input : ∀ p ∈ v.inputs, ∀ c, p.slot = some c → c.Named
  output : ∀ c, some c ∈ v.outputs → c.Named

lemma PortView.output?_zero_eq_some {v : PortView} {c : Slot} :
    v.output? 0 = some c ↔ ∃ rest, v.outputs = some c :: rest := by
  rcases v with ⟨inputs, _ | ⟨o, rest⟩⟩ <;> simp [PortView.output?]

lemma BufferPool.size_acquire {p q : BufferPool} {o : Option BufferId}
    (h : p.acquire = (o, q)) : q.size = p.size := by
  unfold BufferPool.acquire at h
  split at h <;> cases h <;> rfl

lemma BufferPool.size_recycle (p : BufferPool) (o : Option BufferId) :
    (p.recycle o).size = p.size := by
  cases o with
  | none => rfl
  | some b =>
      simp only [recycle, release]
      repeat' split
      all_goals rfl

namespace Adapter

/-- What a call of an adapter does to the buffers that its ports name and to its
pool. -/
structure Books (x : Adapter Empty) (v : PortView) (r : Reply (Adapter Empty)) : Prop where
  /-- The inputs go on naming what they name. -/
  inputs : (r.ports.inputs.map fun p => p.slot.map (·.buffer)) =
    v.inputs.map fun p => p.slot.map (·.buffer)
  /-- The outputs are linked as before. -/
  outputs : r.ports.outputs.map (·.isSome) = v.outputs.map (·.isSome)
  size : r.state.pool?.map (·.size) = x.pool?.map (·.size)
  covers : ∀ {pool pool' lost}, x.pool? = some pool → r.state.pool? = some pool' →
    pool.Covers v.names lost → pool'.Covers r.ports.names lost
  /-- The pool is exhausted only if all its buffers are lost. -/
  exhausted : r.result = .error (.failed "buffer pool exhausted") →
    ∃ pool, x.pool? = some pool ∧ ∀ lost, pool.Covers v.names lost → lost = pool.size
  named : v.Named → r.ports.Named

variable {x : Adapter Empty} {v : PortView} {r : Reply (Adapter Empty)}

/-- A call that leaves the outputs and the adapter alone, and what the inputs name. -/
lemma Books.of_inputs (houtputs : r.ports.outputs = v.outputs)
    (hinputs : (r.ports.inputs.map fun p => p.slot.map (·.buffer)) =
      v.inputs.map fun p => p.slot.map (·.buffer))
    (hnamed : v.Named → ∀ p ∈ r.ports.inputs, ∀ c, p.slot = some c → c.Named)
    (hstate : r.state = x) (hresult : r.result ≠ .error (.failed "buffer pool exhausted")) :
    x.Books v r where
  inputs := hinputs
  outputs := by rw [houtputs]
  size := by rw [hstate]
  covers hpool hpool' h := by
    rw [hstate, hpool] at hpool'
    cases hpool'
    rwa [PortView.names, houtputs]
  exhausted hr := absurd hr hresult
  named h := ⟨hnamed h, by rw [houtputs]; exact h.output⟩

/-- A call that changes nothing. -/
lemma books_unchanged (result : Except ProcessError Verdict)
    (hresult : result ≠ .error (.failed "buffer pool exhausted")) :
    x.Books v (.unchanged result v x) :=
  .of_inputs rfl rfl (fun h => h.input) rfl hresult

/-- The slots of the inputs change, but not what they name. -/
lemma inputs_mapInputs (v : PortView) {f : Slot → Slot} (hf : ∀ c, (f c).buffer = c.buffer) :
    ((v.mapInputs f).inputs.map fun p => p.slot.map (·.buffer)) =
      v.inputs.map fun p => p.slot.map (·.buffer) := by
  simp only [PortView.mapInputs, List.map_map]
  refine List.map_congr_left fun p _ => ?_
  cases h : p.slot <;> simp [h, hf]

lemma named_mapInputs (h : v.Named) {f : Slot → Slot} (hf : ∀ c : Slot, c.Named → (f c).Named)
    {p : InputView} (hp : p ∈ (v.mapInputs f).inputs) {c : Slot} (hc : p.slot = some c) :
    c.Named := by
  obtain ⟨q, hq, rfl⟩ := List.mem_map.mp hp
  obtain ⟨c', hc', rfl⟩ := Option.map_eq_some_iff.mp hc
  exact hf c' (h.input q hq c' hc')

lemma named_request (c : Slot) : c.request.Named := by simp [Slot.Named]

/-- A call that recycles the buffer in the first output, changes slots of its inputs, and
puts another buffer into the first output or fails. -/
lemma Books.of_refill {pool pool' : BufferPool} {o : Option BufferId} {out c : Slot}
    {rest : List (Option Slot)} (hx : x.pool? = some pool)
    (hv : v.outputs = some out :: rest)
    (hacq : (pool.recycle out.buffer).acquire = (o, pool'))
    (houtputs : r.ports.outputs = some c :: rest) (hc : c.buffer = o) (hcnamed : c.Named)
    (hinputs : (r.ports.inputs.map fun p => p.slot.map (·.buffer)) =
      v.inputs.map fun p => p.slot.map (·.buffer))
    (hnamed : v.Named → ∀ p ∈ r.ports.inputs, ∀ c, p.slot = some c → c.Named)
    (hstate : r.state.pool? = some pool')
    (hresult : r.result = .error (.failed "buffer pool exhausted") → o = none) :
    x.Books v r := by
  subst hc
  have hrefill : ∀ {lost}, pool.Covers v.names lost →
      pool'.Covers r.ports.names lost ∧ (c.buffer = none → lost = pool.size) := by
    intro lost h
    rw [PortView.names, hv] at h
    rw [PortView.names, houtputs]
    exact (h.refill hacq).2
  refine ⟨hinputs, by rw [houtputs, hv]; rfl, ?_, ?_, ?_, fun h => ⟨hnamed h, ?_⟩⟩
  · rw [hstate, hx, Option.map_some, Option.map_some, BufferPool.size_acquire hacq,
      BufferPool.size_recycle]
  · intro p p' lost hp hp' h
    rw [hx] at hp
    rw [hstate] at hp'
    cases hp
    cases hp'
    exact (hrefill h).1
  · exact fun hr => ⟨pool, hx, fun lost h => (hrefill h).2 (hresult hr)⟩
  · intro c' hc'
    rw [houtputs, List.mem_cons] at hc'
    rcases hc' with hc' | hc'
    · cases hc'
      exact hcnamed
    · exact h.output c' (by rw [hv]; exact List.mem_cons_of_mem _ hc')

/-- A call that writes the slot of the first input. -/
lemma books_setInput {c₀ c : Slot} {state : Adapter Empty} {verdict : Verdict}
    (hv : v.input? 0 = some c₀) (hc : c.buffer = c₀.buffer) (hcnamed : c.Named)
    (hx : x.pool? = none) (hstate : state.pool? = none) :
    x.Books v ⟨.ok verdict, v.setInput 0 c, state⟩ := by
  obtain ⟨p, rest, hin, hp⟩ : ∃ p rest, v.inputs = p :: rest ∧ p.slot = some c₀ := by
    rcases hin : v.inputs with _ | ⟨p, rest⟩
    · simp [PortView.input?, hin] at hv
    · exact ⟨p, rest, rfl, by simpa [PortView.input?, hin] using hv⟩
  have hset : (v.setInput 0 c).inputs = { p with slot := some c } :: rest := by
    simp [PortView.setInput, hin, hp]
  refine ⟨?_, rfl, by simp [hx, hstate], fun hpool => ?_, fun hr => (by cases hr),
    fun h => ⟨fun q hq c' hc' => ?_, h.output⟩⟩
  · rw [hset, hin]
    simp [hp, hc]
  · rw [hx] at hpool
    cases hpool
  · rw [hset, List.mem_cons] at hq
    rcases hq with rfl | hq
    · cases hc'
      exact hcnamed
    · exact h.input q (by rw [hin]; exact List.mem_cons_of_mem _ hq) c' hc'

lemma books_source (s : Source) (side : Side) (v : PortView) :
    (Adapter.source s : Adapter Empty).Books v (Processor.call side (.source s) v) := by
  cases side with
  | input => exact books_unchanged (.error .notSupported) (by simp)
  | output =>
      change Books _ _ (ofReply source (s.produce v))
      unfold Source.produce
      split
      · exact books_unchanged (.error .unlinked) (by simp)
      · rename_i out hout
        obtain ⟨rest, hv⟩ := PortView.output?_zero_eq_some.mp hout
        have hset : ∀ c, (v.setOutput 0 c).outputs = some c :: rest := by
          simp [PortView.setOutput, hv]
        split
        · exact books_unchanged (.ok .haveOutput) (by simp)
        · rename_i hdata
          split
          · rename_i hacq
            exact .of_refill rfl hv hacq (hset _) rfl (fun h => absurd h hdata) rfl
              (fun h => h.input) rfl fun _ => rfl
          · rename_i hacq
            exact .of_refill rfl hv hacq (hset _) rfl (fun _ => rfl) rfl
              (fun h => h.input) rfl fun h => (by cases h)

lemma books_sink (s : Sink) (side : Side) (v : PortView) :
    (Adapter.sink s : Adapter Empty).Books v (Processor.call side (.sink s) v) := by
  cases side with
  | input =>
      change Books _ _ (ofReply sink (s.consume v))
      unfold Sink.consume
      split
      · exact books_unchanged (.error .unlinked) (by simp)
      · rename_i c hc
        split
        · rename_i hdata
          refine books_setInput hc (c.buffer_take) ?_ rfl rfl
          simp [Slot.take, hdata, named_request]
        · exact books_setInput hc rfl (named_request c) rfl rfl
  | output =>
      change Books _ _ (ofReply sink (s.demand v))
      unfold Sink.demand
      split
      · exact books_unchanged (.error .unlinked) (by simp)
      · rename_i c hc
        exact books_setInput hc rfl (named_request c) rfl rfl

lemma books_mixer (m : Mixer) (side : Side) (v : PortView) :
    (Adapter.mixer m : Adapter Empty).Books v (Processor.call side (.mixer m) v) := by
  have hcall : Processor.call side (.mixer m : Adapter Empty) v = ofReply mixer (m.mix v) := by
    cases side <;> rfl
  rw [hcall]
  unfold Mixer.mix
  split
  · exact books_unchanged (.error .unlinked) (by simp)
  · rename_i out hout
    obtain ⟨rest, hv⟩ := PortView.output?_zero_eq_some.mp hout
    split
    · exact books_unchanged (.ok .haveOutput) (by simp)
    · rename_i hdata
      split
      · exact books_unchanged (.error .unlinked) (by simp)
      · split
        · refine .of_inputs rfl (inputs_mapInputs v Mixer.buffer_requestIfDrained)
            (fun h p hp c hc => named_mapInputs h (fun c hc => ?_) hp hc) rfl
            (by simp [ofReply, Reply.unchanged])
          unfold Mixer.requestIfDrained
          split
          · exact hc
          · exact named_request c
        · have hset : ∀ c, ((v.mapInputs (·.take.2)).setOutput 0 c).outputs =
              some c :: rest := by
            simp [PortView.setOutput, PortView.mapInputs, hv]
          have hinputs := inputs_mapInputs v Slot.buffer_take
          have hnamed : ∀ c : Slot, c.Named → c.take.2.Named := by
            intro c hc
            rw [Slot.take]
            split
            · exact named_request c
            · exact hc
          simp only
          split
          · rename_i hacq
            exact .of_refill rfl hv hacq (hset _) rfl (fun h => absurd h hdata) hinputs
              (fun h p hp c hc => named_mapInputs h hnamed hp hc) rfl fun _ => rfl
          · rename_i hacq
            exact .of_refill rfl hv hacq (hset _) rfl (fun _ => rfl) hinputs
              (fun h p hp c hc => named_mapInputs h hnamed hp hc) rfl fun h => (by cases h)

/-- What every call of a built-in adapter does. -/
theorem books (x : Adapter Empty) (side : Side) (v : PortView) :
    x.Books v (Processor.call side x v) := by
  cases x with
  | source s => exact books_source s side v
  | sink s => exact books_sink s side v
  | mixer m => exact books_mixer m side v
  | custom x => exact x.elim

/-- A source all buffers of which are lost finds its pool exhausted when it is asked. -/
lemma exhausted_of_lost {s : Source} {out : Slot} {rest : List (Option Slot)} {lost : Nat}
    (hv : v.outputs = some out :: rest) (hnamed : v.Named)
    (h : s.pool.Covers v.names lost) (hlost : lost = s.pool.size) :
    (Processor.call .output (source s : Adapter Empty) v).result =
      .error (.failed "buffer pool exhausted") := by
  obtain ⟨hfree, hnone⟩ := h.eq_of_lost hlost
  have hbuffer : out.buffer = none := by
    simpa [PortView.names, hv] using hnone
  have hdata : out.hasData = false := by
    by_contra hdata
    have := hnamed.output out (by simp [hv]) (by simpa using hdata)
    simp [hbuffer] at this
  have hacq := h.toSized.acquire_of_available hfree
  change (s.produce v).result = _
  rcases hq : s.pool.acquire with ⟨_ | b, q⟩
  · simp [Source.produce, PortView.output?_zero_eq_some.mpr ⟨rest, hv⟩, hdata, hbuffer,
      BufferPool.recycle, hq]
  · rw [hq] at hacq
    cases hacq

end Adapter

/-! ### Slots -/

namespace Flow

variable {σ : Type} {s t : Flow σ} {links : List (Option PortId)}
  {slots : List (Option Slot)}

/-- Written slots are read back. -/
lemma slot_writeSlots_congr (h : t.slot = s.slot) :
    (t.writeSlots links slots).slot = (s.writeSlots links slots).slot := by
  simp only [writeSlots]
  generalize links.zip slots = l
  induction l generalizing s t with
  | nil => exact h
  | cons x l ih =>
      refine ih ?_
      rcases x with ⟨_ | p, _ | c⟩ <;> simp [writeSlot, setSlot, h]

/-- What holds of all slots before holds of all afterwards, if it holds of those that are
written. -/
lemma forall_writeSlots {P : PortId → Slot → Prop} (h : ∀ p, P p (s.slot p))
    (hslots : ∀ p c, (some p, some c) ∈ links.zip slots → P p c) (p : PortId) :
    P p ((s.writeSlots links slots).slot p) := by
  simp only [writeSlots]
  generalize links.zip slots = l at hslots
  induction l generalizing s with
  | nil => exact h p
  | cons x l ih =>
      refine ih (fun q => ?_) fun q c hq => hslots q c (List.mem_cons_of_mem x hq)
      rcases x with ⟨_ | r, _ | c⟩ <;> try exact h q
      simp only [writeSlot, setSlot, Function.update_apply]
      split
      · subst_vars
        exact hslots _ _ List.mem_cons_self
      · exact h q

/-- Slots behind other links stay. -/
lemma slot_writeSlots_of_notMem {p : PortId} (hp : p ∉ links.reduceOption) :
    (s.writeSlots links slots).slot p = s.slot p := by
  refine forall_writeSlots (P := fun q c => q = p → c = s.slot p)
    (fun q hq => by rw [hq]) (fun q c hq hqp => ?_) p rfl
  subst hqp
  exact absurd (List.reduceOption_mem_iff.mpr (List.of_mem_zip hq).1) hp

/-- Slots that are written behind different links are all read back. -/
lemma map_slot_writeSlots (hlinks : links.reduceOption.Nodup)
    (hslots : slots.map (·.isSome) = links.map (·.isSome)) :
    links.map (Option.map (s.writeSlots links slots).slot) = slots := by
  induction links generalizing s slots with
  | nil =>
      rw [List.map_nil, List.map_eq_nil_iff] at hslots
      rw [hslots, List.map_nil]
  | cons o links ih =>
      obtain ⟨v, vs, rfl, hv, hvs⟩ := List.map_eq_cons_iff.mp hslots
      have hstep : s.writeSlots (o :: links) (v :: vs) =
          (s.writeSlot (o, v)).writeSlots links vs := rfl
      rw [hstep, List.map_cons]
      cases o with
      | none =>
          obtain rfl : v = none := by simpa using hv
          rw [ih hlinks hvs]
          rfl
      | some p =>
          obtain ⟨c, rfl⟩ := Option.isSome_iff_exists.mp hv
          rw [List.reduceOption_cons_of_some, List.nodup_cons] at hlinks
          rw [ih hlinks.2 hvs, Option.map_some, slot_writeSlots_of_notMem hlinks.1]
          simp [writeSlot, setSlot]

end Flow

namespace Network

variable {σ : Type} (N : Network) {n m : NodeId} {p : PortId}

/-! ### Calls of any processor -/

/-- The buffers that the outputs of a node name. -/
def names (n : NodeId) (s : Flow σ) : List (Option BufferId) :=
  (N.outputs n).map fun o => o.bind fun p => (s.slot p).buffer

lemma names_view (n : NodeId) (s : Flow σ) : (N.view n s).names = N.names n s := by
  simp only [PortView.names, view, names, List.map_map]
  refine List.map_congr_left fun o _ => ?_
  cases o <;> rfl

lemma names_congr {s t : Flow σ}
    (h : ∀ p ∈ N.targets n, (t.slot p).buffer = (s.slot p).buffer) :
    N.names n t = N.names n s := by
  refine List.map_congr_left fun o ho => ?_
  rcases o with _ | p
  · rfl
  · exact h p (List.reduceOption_mem_iff.mpr ho)

/-- Names that a processor does not change are kept, except for those in the outputs of
its node. -/
lemma buffer_writeView {s : Flow σ} {v : PortView}
    (hv : (v.inputs.map fun p => p.slot.map (·.buffer)) =
      (N.view n s).inputs.map fun p => p.slot.map (·.buffer)) (hp : p ∉ N.targets n) :
    ((N.writeView n v s).slot p).buffer = (s.slot p).buffer := by
  rw [writeView, Flow.slot_writeSlots_of_notMem hp]
  refine Flow.forall_writeSlots (P := fun p c => c.buffer = (s.slot p).buffer)
    (fun _ => rfl) (fun q c hq => ?_) p
  obtain ⟨i, hi⟩ := List.mem_iff_getElem?.mp hq
  rw [List.getElem?_zip_eq_some, List.getElem?_map, List.getElem?_map,
    Option.map_eq_some_iff, Option.map_eq_some_iff] at hi
  obtain ⟨⟨r, hr, hlinked⟩, w, hw, hslot⟩ := hi
  have hnames := congrArg (·[i]?) hv
  simp only [view, List.getElem?_map, hw, hr, Option.map_some, hslot, hlinked] at hnames
  exact Option.some.inj (Option.some.inj hnames)

/-- What a processor leaves in the outputs of its node is read back. -/
lemma outputs_writeView (hn : (N.targets n).Nodup) {s : Flow σ} {v : PortView}
    (hv : v.outputs.map (·.isSome) = (N.view n s).outputs.map (·.isSome)) :
    (N.outputs n).map (Option.map (N.writeView n v s).slot) = v.outputs := by
  refine Flow.map_slot_writeSlots hn (hv.trans ?_)
  simp [view, List.map_map, Function.comp_def]

/-- What holds of all slots that a processor leaves, and held before, holds of all
slots. -/
lemma forall_writeView {P : Slot → Prop} {s : Flow σ} {v : PortView} (h : ∀ p, P (s.slot p))
    (hin : ∀ p ∈ v.inputs, ∀ c, p.slot = some c → P c) (hout : ∀ c, some c ∈ v.outputs → P c)
    (p : PortId) : P ((N.writeView n v s).slot p) := by
  refine Flow.forall_writeSlots (P := fun _ c => P c) (fun q => ?_)
    (fun q c hq => hout c (List.of_mem_zip hq).2) p
  refine Flow.forall_writeSlots (P := fun _ c => P c) h (fun r c hr => ?_) q
  obtain ⟨w, hw, hc⟩ := List.mem_map.mp (List.of_mem_zip hr).2
  exact hin w hw c hc

lemma slot_writeView_congr {s t : Flow σ} (h : t.slot = s.slot) (v : PortView) :
    (N.writeView n v t).slot = (N.writeView n v s).slot :=
  Flow.slot_writeSlots_congr (Flow.slot_writeSlots_congr h)

variable [Processor σ]

/-- The slots and the processors after a call are those that the processor left. -/
lemma slot_processor_call (hN : N.Proper) (n : NodeId) (x : σ) (side : Side) (s : Flow σ) :
    (N.call n x side s).2.slot =
        (N.writeView n (Processor.call side x (N.view n s)).ports s).slot ∧
      (N.call n x side s).2.processor = Function.update s.processor n
        (some (Processor.call side x (N.view n s)).state) := by
  have hprocessor : ∀ (v : PortView) (t : Flow σ), (N.writeView n v t).processor =
      t.processor := by
    intro v t
    obtain ⟨slot, ht⟩ := N.exists_writeView_eq n v t
    rw [ht]
  cases side with
  | input =>
      have hview : N.view n (N.reset n s) = N.view n s := rfl
      simp only [call, hview]
      constructor
      · rw [← N.slot_writeView_congr (t := (N.reset n s).setProcessor n
          (Processor.call .input x (N.view n s)).state) (s := s) rfl]
        split <;> rfl
      · split <;> exact hprocessor _ _
  | output =>
      simp only [call]
      constructor
      · rw [← N.slot_writeView_congr (t := s.setProcessor n
          (Processor.call .output x (N.view n s)).state) (s := s) rfl]
        split <;> simp [N.dropConsumed_eq hN, Flow.setPhase, Flow.countCall]
      · split <;>
          simp [N.dropConsumed_eq hN, Flow.setPhase, Flow.countCall, hprocessor,
            Flow.setProcessor]

lemma result_call (n : NodeId) (x : σ) (side : Side) (s : Flow σ) :
    (N.call n x side s).1 = (Processor.call side x (N.view n s)).result := by
  cases side <;>
    · simp only [call, show N.view n (N.reset n s) = N.view n s from rfl]
      split
      all_goals
        rename_i hr
        exact hr.symm

/-- What a turn does to slots and processors that calls the processor `x` of its
node. -/
structure Invokes (n : NodeId) (x : σ) (side : Side) (s : Flow σ) (v : FlowTurn σ) : Prop where
  callback : v.callback = some ⟨n, side, (Processor.call side x (N.view n s)).result⟩
  slot : v.flow.slot = (N.writeView n (Processor.call side x (N.view n s)).ports s).slot
  processor : v.flow.processor =
    Function.update s.processor n (some (Processor.call side x (N.view n s)).state)

lemma invokes_report (hN : N.Proper) (D : Option NodeId) (n : NodeId) (x : σ) (side : Side)
    (s : Flow σ) : N.Invokes n x side s
      (report D n side (N.call n x side (s.dequeue n).countTurn)) := by
  obtain ⟨hslot, hprocessor⟩ := N.slot_processor_call hN n x side (s.dequeue n).countTurn
  refine ⟨?_, ?_, ?_⟩
  · rw [show N.view n s = N.view n (s.dequeue n).countTurn from rfl, ← N.result_call]
    rcases N.call n x side (s.dequeue n).countTurn with ⟨_ | _, t⟩ <;> rfl
  · rw [slot_report, hslot]
    exact N.slot_writeView_congr (t := (s.dequeue n).countTurn) (s := s) rfl _
  · rw [processor_report, hprocessor]
    rfl

/-- A turn changes slots and processors only through a call. -/
lemma serve_invokes (hN : N.Proper) (D : Option NodeId) (n : NodeId) (s : Flow σ) :
    ((N.serve D n s).callback = none ∧ (N.serve D n s).flow.slot = s.slot ∧
      (N.serve D n s).flow.processor = s.processor) ∨
    ∃ x side, s.processor n = some x ∧ N.Invokes n x side s (N.serve D n s) := by
  unfold serve
  split
  · exact Or.inl ⟨rfl, rfl, rfl⟩
  · rename_i x hx
    unfold serveNode
    split
    · exact Or.inr ⟨x, .input, hx, N.invokes_report hN D n x .input s⟩
    · exact Or.inr ⟨x, .output, hx, N.invokes_report hN D n x .output s⟩
    · split
      · exact Or.inl ⟨rfl, rfl, rfl⟩
      · refine Or.inl ⟨rfl, ?_, ?_⟩
        · rw [slot_checkOut hN, checkIn_eq]
          rfl
        · rw [processor_checkOut hN, checkIn_eq]
          rfl
    · exact Or.inl ⟨rfl, slot_checkOut hN _, processor_checkOut hN _⟩

/-! ### The books of all producers -/

/-- The books of all producers: what is lost of the pool of each of them, and the size of
that pool. -/
structure Ledger (size : NodeId → Option Nat) (lost : NodeId → Nat)
    (s : Flow (Adapter Empty)) : Prop where
  covers : ∀ {n x pool}, s.processor n = some x → x.pool? = some pool →
    pool.Covers (N.names n s) (lost n)
  size : ∀ n, ((s.processor n).bind (·.pool?)).map (·.size) = size n
  named : ∀ p, (s.slot p).Named

variable {N} {size : NodeId → Option Nat} {lost : NodeId → Nat} {s t : Flow (Adapter Empty)}

namespace Ledger

lemma congr (h : N.Ledger size lost s) (hslot : t.slot = s.slot)
    (hprocessor : t.processor = s.processor) : N.Ledger size lost t where
  covers {n x pool} hx hpool := by
    rw [hprocessor] at hx
    rw [N.names_congr (s := s) fun p _ => by rw [hslot]]
    exact h.covers hx hpool
  size n := by
    rw [hprocessor]
    exact h.size n
  named p := by
    rw [hslot]
    exact h.named p

/-- What a node sees names its data. -/
lemma named_view (h : N.Ledger size lost s) (n : NodeId) : (N.view n s).Named where
  input p hp c hc := by
    obtain ⟨q, -, rfl⟩ := List.mem_map.mp hp
    obtain ⟨q', -, rfl⟩ := Option.map_eq_some_iff.mp hc
    exact h.named q'
  output c hc := by
    obtain ⟨o, -, ho⟩ := List.mem_map.mp hc
    obtain ⟨q, -, rfl⟩ := Option.map_eq_some_iff.mp ho
    exact h.named q

/-- Every turn keeps the books. -/
theorem serve (hN : N.Proper) (htargets : ∀ n, (N.targets n).Nodup)
    (h : N.Ledger size lost s) (D : Option NodeId) (n : NodeId) :
    N.Ledger size lost (N.serve D n s).flow := by
  rcases N.serve_invokes hN D n s with ⟨-, hslot, hprocessor⟩ | ⟨x, side, hx, hinvokes⟩
  · exact h.congr hslot hprocessor
  · have hbooks := x.books side (N.view n s)
    obtain ⟨-, hslot, hprocessor⟩ := hinvokes
    generalize Processor.call side x (N.view n s) = r at hbooks hslot hprocessor
    refine ⟨fun {m y pool} hy hpool => ?_, fun m => ?_, fun p => ?_⟩
    · rw [hprocessor, Function.update_apply] at hy
      split at hy
      · rename_i hm
        subst hm
        obtain rfl := Option.some.inj hy
        have hnames : N.names m (N.serve D m s).flow = r.ports.names := by
          rw [← N.names_view, PortView.names, PortView.names]
          simp only [view, hslot]
          rw [N.outputs_writeView (htargets m) hbooks.outputs]
        obtain ⟨old, hold, -⟩ := Option.map_eq_some_iff.mp
          (hbooks.size.symm.trans (by rw [hpool, Option.map_some]))
        rw [hnames]
        refine hbooks.covers hold hpool ?_
        rw [N.names_view]
        exact h.covers hx hold
      · rename_i hm
        -- the outputs of another node keep what they name
        rw [N.names_congr (s := s) fun p hp => ?_]
        · exact h.covers hy hpool
        · rw [hslot]
          refine N.buffer_writeView hbooks.inputs fun hpn => hm ?_
          obtain ⟨c, hc⟩ := hN.target hp
          exact Option.some.inj (((hN.feeder hc m).mpr hp).symm.trans
            ((hN.feeder hc n).mpr hpn))
    · rw [hprocessor, Function.update_apply, ← h.size m]
      split
      · rename_i hm
        rw [hm, hx]
        exact hbooks.size
      · rfl
    · rw [hslot]
      have hnamed := hbooks.named (h.named_view n)
      exact N.forall_writeView h.named hnamed.input hnamed.output p

/-- A call that finds its pool exhausted is one of a producer all buffers of which are
lost. -/
theorem exhausted (hN : N.Proper) (h : N.Ledger size lost s) {D : Option NodeId} {n : NodeId}
    {c : Callback} (hc : (N.serve D n s).callback = some c)
    (hresult : c.result = .error (.failed "buffer pool exhausted")) :
    size c.node = some (lost c.node) := by
  rcases N.serve_invokes hN D n s with ⟨hnone, -⟩ | ⟨x, side, hx, hinvokes⟩
  · rw [hnone] at hc
    cases hc
  · rw [hinvokes.callback] at hc
    cases hc
    obtain ⟨pool, hpool, hlost⟩ := (x.books side (N.view n s)).exhausted hresult
    rw [← h.size, hx, Option.bind_some, hpool, Option.map_some]
    congr 1
    refine (hlost (lost n) ?_).symm
    rw [N.names_view]
    exact h.covers hx hpool

end Ledger

end Network

end MediaGraph

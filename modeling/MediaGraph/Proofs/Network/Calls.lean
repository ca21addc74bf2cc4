/-
What the calls of adapters do to a flow.

* `Network.Suits`: a node has the ports that its adapter is made for;
* `Network.Acts`: the ways in which a call of an adapter ends, with the slots
  and the adapter that it leaves behind;
* `Network.acts_of_call`: every call of an adapter that suits its node ends in
  one of these ways, and what it does besides is the bookkeeping of
  `Network.conclude`.
-/
import MediaGraph.Adapter
import MediaGraph.Proofs.Network.Basic

namespace MediaGraph.Network

variable {σ : Type} (N : Network) {n : NodeId} {p : PortId}

/-! ### Writing the ports of a node -/

/-- The slots after those of the linked inputs of a node were changed. -/
def onInputs (n : NodeId) (f : Slot → Slot) (slot : PortId → Slot) :
    PortId → Slot :=
  fun p => if p ∈ N.inputs n ∧ (N.feeder p).isSome then f (slot p) else slot p

variable {N} in
lemma onInputs_cases {slot : PortId → Slot} {P : Slot → Prop} {f : Slot → Slot}
    (h : P (slot p)) (hf : P (f (slot p))) : P (N.onInputs n f slot p) := by
  rw [onInputs]
  split
  · exact hf
  · exact h

@[simp] lemma hasData_onInputs_requestIfDrained (n : NodeId)
    (slot : PortId → Slot) (p : PortId) :
    (N.onInputs n Mixer.requestIfDrained slot p).hasData = (slot p).hasData :=
  onInputs_cases (P := fun c => c.hasData = (slot p).hasData) rfl
    (Mixer.hasData_requestIfDrained _)

@[simp] lemma buffer_onInputs_requestIfDrained (n : NodeId)
    (slot : PortId → Slot) (p : PortId) :
    (N.onInputs n Mixer.requestIfDrained slot p).buffer = (slot p).buffer :=
  onInputs_cases (P := fun c => c.buffer = (slot p).buffer) rfl
    (Mixer.buffer_requestIfDrained _)

/-- An input is linked and its link holds an unread buffer. -/
def holds (slot : PortId → Slot) (p : PortId) : Bool :=
  (N.feeder p).isSome && (slot p).hasData

lemma holds_iff {slot : PortId → Slot} :
    N.holds slot p = true ↔
      (N.feeder p).isSome = true ∧ (slot p).hasData = true := by
  simp [holds]

/-- The view of a node after the slots of its inputs were changed. -/
lemma inputs_mapInputs_view (s : Flow σ) (f : Slot → Slot) :
    ((N.view n s).mapInputs f).inputs.map (·.slot) =
      (N.inputs n).map fun p => (N.linked? p).map (f ∘ s.slot) := by
  simp [PortView.mapInputs, view, List.map_map, Function.comp_def,
    Option.map_map]

/-- Writing the inputs of a node. -/
lemma writeSlots_inputs (s : Flow σ) (h : PortId → Slot) :
    s.writeSlots ((N.inputs n).map N.linked?)
        ((N.inputs n).map fun p => (N.linked? p).map h) =
      { s with slot := fun p =>
          if p ∈ N.inputs n ∧ (N.feeder p).isSome then h p else s.slot p } := by
  have hstep : ∀ (s : Flow σ) (p : PortId),
      s.writeSlot (N.linked? p, (N.linked? p).map h) =
        if (N.feeder p).isSome then s.setSlot p (h p) else s := by
    intro s p
    rw [linked?]
    split <;> rfl
  rw [Flow.writeSlots, List.zip_map', List.foldl_map]
  simp only [hstep]
  have key : ∀ l : List PortId, l.foldl
      (fun s p => if (N.feeder p).isSome then s.setSlot p (h p) else s) s =
      { s with slot := fun p =>
          if p ∈ l ∧ (N.feeder p).isSome then h p else s.slot p } := by
    intro l
    induction l generalizing s with
    | nil => simp
    | cons p l ih =>
        rw [List.foldl_cons, ih]
        split
        · ext1 <;> try rfl
          funext q
          simp only [Flow.setSlot, Function.update_apply]
          grind
        · ext1 <;> try rfl
          funext q
          grind
  convert key (N.inputs n)

/-- What a callback leaves in the slots of its node when it changes those of
its inputs. -/
lemma writeView_mapInputs {s t : Flow σ} (f : Slot → Slot)
    (hslot : t.slot = s.slot) (outs : List (Option Slot)) :
    N.writeView n ⟨((N.view n s).mapInputs f).inputs, outs⟩ t =
      ({ t with slot := N.onInputs n f s.slot } : Flow σ).writeSlots
        (N.outputs n) outs := by
  rw [writeView, inputs_mapInputs_view, writeSlots_inputs]
  congr 2
  funext p
  rw [onInputs, hslot]
  rfl

/-- What a callback leaves in the slots of its node when it reads nothing. -/
lemma writeView_view {s t : Flow σ} (hslot : t.slot = s.slot)
    (outs : List (Option Slot)) :
    N.writeView n ⟨(N.view n s).inputs, outs⟩ t =
      t.writeSlots (N.outputs n) outs := by
  have h := N.writeView_mapInputs (n := n) id hslot outs
  have hid : N.onInputs n id s.slot = t.slot := by
    funext p
    simp [onInputs, hslot]
  rw [hid] at h
  rw [← h]
  simp [PortView.mapInputs]

/-- Writing slots that are there already. -/
lemma writeSlots_self (s : Flow σ) (l : List (Option PortId)) :
    s.writeSlots l (l.map (Option.map s.slot)) = s := by
  induction l with
  | nil => rfl
  | cons o l ih =>
      have hstep : s.writeSlot (o, o.map s.slot) = s := by
        rcases o with _ | p
        · rfl
        · simp [Flow.writeSlot, Flow.setSlot]
      rw [Flow.writeSlots, List.map_cons, List.zip_cons_cons, List.foldl_cons,
        hstep]
      exact ih

/-- What a callback leaves when it changes nothing. -/
lemma writeView_view_self {s t : Flow σ} (hslot : t.slot = s.slot) :
    N.writeView n (N.view n s) t = { t with slot := s.slot } := by
  have h := N.writeView_view (n := n) hslot (N.view n s).outputs
  have hself := writeSlots_self t (N.outputs n)
  rw [hslot] at hself
  rw [show N.writeView n (N.view n s) t = _ from h, ← hslot]
  exact hself

/-- What a callback leaves when it changes its inputs and fills its only
output. -/
lemma writeView_setOutput {s t : Flow σ} (f : Slot → Slot)
    (hslot : t.slot = s.slot) (ho : N.outputs n = [some p]) (c : Slot) :
    N.writeView n (((N.view n s).mapInputs f).setOutput 0 c) t =
      { t with slot := Function.update (N.onInputs n f s.slot) p c } := by
  have hv : ((N.view n s).mapInputs f).setOutput 0 c =
      ⟨((N.view n s).mapInputs f).inputs, [some c]⟩ := by
    simp [PortView.setOutput, PortView.mapInputs, view, ho]
  rw [hv, N.writeView_mapInputs f hslot, ho]
  rfl

/-- What a callback leaves when it fills its only output. -/
lemma writeView_setOutput_view {s t : Flow σ} (hslot : t.slot = s.slot)
    (ho : N.outputs n = [some p]) (c : Slot) :
    N.writeView n ((N.view n s).setOutput 0 c) t =
      { t with slot := Function.update s.slot p c } := by
  have h := N.writeView_setOutput (n := n) id hslot ho c
  have hid : N.onInputs n id s.slot = s.slot := by
    funext p
    simp [onInputs]
  simpa [hid, PortView.mapInputs] using h

/-- What a callback leaves when it changes its inputs only. -/
lemma writeView_mapInputs_view {s t : Flow σ} (f : Slot → Slot)
    (hslot : t.slot = s.slot) (hirr : ∀ p, some p ∈ N.outputs n → p ∉ N.inputs n) :
    N.writeView n ((N.view n s).mapInputs f) t =
      { t with slot := N.onInputs n f s.slot } := by
  have h := N.writeView_mapInputs (n := n) f hslot (N.view n s).outputs
  rw [show N.writeView n ((N.view n s).mapInputs f) t = _ from h]
  have hself := writeSlots_self
    ({ t with slot := N.onInputs n f s.slot } : Flow σ) (N.outputs n)
  rw [← hself]
  congr 2
  refine List.map_congr_left fun o ho => ?_
  rcases o with _ | p
  · rfl
  · simp [onInputs, hirr p ho]

/-! ### The ways in which a call ends -/

variable {τ : Type}

/-- A node has the ports that its adapter is made for. -/
def Suits (n : NodeId) : Adapter τ → Prop
  | .source _ => N.inputs n = [] ∧ ∃ o, N.outputs n = [o]
  | .sink _ => (∃ p, N.inputs n = [p]) ∧ N.outputs n = []
  | .mixer _ => N.inputs n ≠ [] ∧ ∃ o, N.outputs n = [o]
  | .custom _ => False

/-- A linked input keeps a mixer waiting: it is required and not full. -/
def isMissing (slot : PortId → Slot) (p : PortId) : Bool :=
  (N.feeder p).isSome && !(slot p).hasData && !N.optional p

/-- The ways in which a call of an adapter on one side ends, with the result,
the slots and the adapter that it leaves behind. -/
inductive Acts (n : NodeId) (slot : PortId → Slot) :
    Adapter τ → Side → Except ProcessError Verdict → (PortId → Slot) →
      Adapter τ → Prop
  /-- Sources have no inputs to process. -/
  | notSupported {src : Source} :
      Acts n slot (.source src) .input (.error .notSupported) slot (.source src)
  /-- The output of a source is not linked. -/
  | mute {src : Source} :
      N.outputs n = [none] →
      Acts n slot (.source src) .output (.error .unlinked) slot (.source src)
  /-- The last buffer of a source was not read yet. -/
  | keep {src : Source} {p : PortId} :
      N.outputs n = [some p] → (slot p).hasData = true →
      Acts n slot (.source src) .output (.ok .haveOutput) slot (.source src)
  /-- A source has no buffer left. -/
  | dry {src : Source} {p : PortId} {pool : BufferPool} :
      N.outputs n = [some p] → (slot p).hasData = false →
      (src.pool.recycle (slot p).buffer).acquire = (none, pool) →
      Acts n slot (.source src) .output (.error (.failed "buffer pool exhausted"))
        (Function.update slot p { slot p with buffer := none })
        (.source { src with pool })
  /-- A source leaves a buffer in its output. -/
  | produce {src : Source} {p : PortId} {b : BufferId} {pool : BufferPool} :
      N.outputs n = [some p] → (slot p).hasData = false →
      (src.pool.recycle (slot p).buffer).acquire = (some b, pool) →
      Acts n slot (.source src) .output (.ok .haveOutput)
        (Function.update slot p (.provide b))
        (.source { pool, produced := src.produced + 1 })
  /-- The input of a sink is not linked. -/
  | deaf {snk : Sink} {side : Side} {p : PortId} :
      N.inputs n = [p] → N.feeder p = none →
      Acts n slot (.sink snk) side (.error .unlinked) slot (.sink snk)
  /-- A sink consumes the buffer in its input and asks for the next one. -/
  | consume {snk : Sink} {p : PortId} :
      N.inputs n = [p] → (N.feeder p).isSome = true → (slot p).hasData = true →
      Acts n slot (.sink snk) .input (.ok .needInput)
        (Function.update slot p (slot p).request)
        (.sink { received := snk.received + 1, last := (slot p).buffer })
  /-- A sink asks for a buffer. -/
  | want {snk : Sink} {p : PortId} {side : Side} :
      N.inputs n = [p] → (N.feeder p).isSome = true →
      (side = .input → (slot p).hasData = false) →
      Acts n slot (.sink snk) side (.ok .needInput)
        (Function.update slot p (slot p).request) (.sink snk)
  /-- The output of a mixer is not linked, or none of its inputs is. -/
  | idle {m : Mixer} {side : Side} :
      N.outputs n = [none] ∨ (∀ p ∈ N.inputs n, N.feeder p = none) →
      Acts n slot (.mixer m) side (.error .unlinked) slot (.mixer m)
  /-- The last buffer of a mixer was not read yet. -/
  | hold {m : Mixer} {side : Side} {p : PortId} :
      N.outputs n = [some p] → (slot p).hasData = true →
      Acts n slot (.mixer m) side (.ok .haveOutput) slot (.mixer m)
  /-- A mixer asks its drained inputs for data. -/
  | request {m : Mixer} {side : Side} {p : PortId} :
      N.outputs n = [some p] → (slot p).hasData = false →
      (∃ p ∈ N.inputs n, (N.feeder p).isSome = true) →
      (∃ p ∈ N.inputs n, N.isMissing slot p = true) ∨
        (∀ p ∈ N.inputs n, N.holds slot p = false) →
      Acts n slot (.mixer m) side (.ok .needInput)
        (N.onInputs n Mixer.requestIfDrained slot) (.mixer m)
  /-- A mixer consumes its inputs, but has no buffer left. -/
  | spill {m : Mixer} {side : Side} {p : PortId} {pool : BufferPool} :
      N.outputs n = [some p] → (slot p).hasData = false →
      (∀ p ∈ N.inputs n, N.isMissing slot p = false) →
      (∃ p ∈ N.inputs n, N.holds slot p = true) →
      (m.pool.recycle (slot p).buffer).acquire = (none, pool) →
      Acts n slot (.mixer m) side (.error (.failed "buffer pool exhausted"))
        (Function.update (N.onInputs n (·.take.2) slot) p
          { slot p with buffer := none })
        (.mixer { m with
          pool
          consumed := m.consumed + (N.inputs n).countP fun p =>
            N.holds slot p && (slot p).buffer.isSome })
  /-- A mixer folds its inputs into one buffer. -/
  | mix {m : Mixer} {side : Side} {p : PortId} {b : BufferId}
      {pool : BufferPool} :
      N.outputs n = [some p] → (slot p).hasData = false →
      (∀ p ∈ N.inputs n, N.isMissing slot p = false) →
      (∃ p ∈ N.inputs n, N.holds slot p = true) →
      (m.pool.recycle (slot p).buffer).acquire = (some b, pool) →
      Acts n slot (.mixer m) side (.ok .haveOutput)
        (Function.update (N.onInputs n (·.take.2) slot) p (.provide b))
        (.mixer {
          pool
          mixes := m.mixes + 1
          consumed := m.consumed + (N.inputs n).countP fun p =>
            N.holds slot p && (slot p).buffer.isSome })

/-- The bookkeeping of a call that ended with `result` and left the slots
`slot` and the processor `x`. -/
def conclude (n : NodeId) (side : Side) (result : Except ProcessError Verdict)
    (slot : PortId → Slot) (x : σ) (s : Flow σ) :
    Except ProcessError Verdict × Flow σ :=
  let called : Flow σ := match side with
    | .input => ({ (N.reset n s).setProcessor n x with slot }).countCall .input
    | .output =>
      N.dropConsumed n (({ s.setProcessor n x with slot }).countCall .output)
  match result with
  | .ok verdict => (.ok verdict, called.setPhase n (Node.phaseAfter verdict))
  | .error cause => (.error cause, called)

/-- A callback whose ports are written back as `slot`. -/
lemma call_eq_conclude [Processor σ] {s : Flow σ} {x x' : σ} {side : Side}
    {result : Except ProcessError Verdict} {slot : PortId → Slot}
    {v : PortView}
    (hreply : Processor.call side x (N.view n s) = ⟨result, v, x'⟩)
    (hslot : ∀ t : Flow σ, t.slot = s.slot →
      N.writeView n v t = { t with slot }) :
    N.call n x side s = N.conclude n side result slot x' s := by
  cases side with
  | input =>
      have hview : N.view n (N.reset n s) = N.view n s := rfl
      have hwrite := hslot ((N.reset n s).setProcessor n x') rfl
      cases result <;> simp only [call, conclude, hview, hreply, hwrite]
  | output =>
      have hwrite := hslot (s.setProcessor n x') rfl
      cases result <;> simp only [call, conclude, hreply, hwrite]

/-- A callback that changes nothing. -/
lemma call_of_unchanged [Processor σ] {s : Flow σ} {x : σ} {side : Side}
    {result : Except ProcessError Verdict}
    (hreply : Processor.call side x (N.view n s) =
      .unchanged result (N.view n s) x) :
    N.call n x side s = N.conclude n side result s.slot x s :=
  N.call_eq_conclude hreply fun _ ht => N.writeView_view_self ht

/-! ### What an adapter sees of its ports -/

/-- What a node sees of its only output. -/
lemma output?_view (s : Flow σ) {o : Option PortId} (ho : N.outputs n = [o]) :
    (N.view n s).output? 0 = o.map s.slot := by
  simp [PortView.output?, view, ho]

/-- A test of what a node sees of its inputs is a test of these inputs. -/
lemma any_inputs_view (s : Flow σ) {f : InputView → Bool} {g : PortId → Bool}
    (h : ∀ p, f ⟨N.optional p, (N.linked? p).map s.slot⟩ = g p) :
    (N.view n s).inputs.any f = (N.inputs n).any g := by
  simp [view, List.any_map, Function.comp_def, h]

lemma any_isLinked_view (s : Flow σ) :
    (N.view n s).inputs.any Mixer.isLinked =
      (N.inputs n).any fun p => (N.feeder p).isSome :=
  N.any_inputs_view s fun p => by
    rw [Mixer.isLinked, linked?]
    cases (N.feeder p).isSome <;> rfl

lemma any_isMissing_view (s : Flow σ) :
    (N.view n s).inputs.any Mixer.isMissing =
      (N.inputs n).any (N.isMissing s.slot) :=
  N.any_inputs_view s fun p => by
    rw [Mixer.isMissing, linked?, isMissing]
    cases (N.feeder p).isSome <;> rfl

lemma any_isReady_view (s : Flow σ) :
    (N.view n s).inputs.any Mixer.isReady = (N.inputs n).any (N.holds s.slot) :=
  N.any_inputs_view s fun p => by
    rw [Mixer.isReady, linked?, holds]
    cases (N.feeder p).isSome <;> rfl

/-- A mixer takes the buffers that its linked inputs hold. -/
lemma countP_taken_view (s : Flow σ) :
    ((N.view n s).inputs.countP fun p => p.slot.any fun s => s.take.1.isSome) =
      (N.inputs n).countP fun p => N.holds s.slot p && (s.slot p).buffer.isSome := by
  rw [view, List.countP_map]
  congr 1
  funext p
  simp only [Function.comp_apply, linked?, holds, Slot.take]
  cases (N.feeder p).isSome
  · rfl
  · cases h : (s.slot p).hasData <;> simp [h]

/-! ### The calls of each kind of adapter -/

variable [Processor τ] {s : Flow (Adapter τ)}

/-- The calls of a source. -/
lemma acts_source {src : Source} {o : Option PortId} (ho : N.outputs n = [o]) (side : Side) :
    ∃ result slot x, N.Acts n s.slot (.source src) side result slot x ∧
      N.call n (.source src) side s = N.conclude n side result slot x s := by
  cases side with
  | input => exact ⟨_, _, _, .notSupported, N.call_of_unchanged rfl⟩
  | output =>
      have hcall : ∀ r : Reply Source, src.produce (N.view n s) = r →
          Processor.call .output (Adapter.source src : Adapter τ) (N.view n s) =
            ⟨r.result, r.ports, .source r.state⟩ := by
        rintro r rfl
        rfl
      rw [Source.produce, N.output?_view s ho] at hcall
      rcases o with _ | p
      · exact ⟨_, _, _, .mute ho, N.call_of_unchanged (hcall _ rfl)⟩
      · simp only [Option.map_some] at hcall
        by_cases hf : (s.slot p).hasData = true
        · exact ⟨_, _, _, .keep ho hf, N.call_of_unchanged (hcall _ (if_pos hf))⟩
        · have hcall' := fun r hr => hcall r ((if_neg hf).trans hr)
          rcases hacq : (src.pool.recycle (s.slot p).buffer).acquire with
            ⟨_ | b, pool⟩
          · rw [hacq] at hcall'
            exact ⟨_, _, _, .dry ho (by simpa using hf) hacq,
              N.call_eq_conclude (hcall' _ rfl) fun _ ht =>
                N.writeView_setOutput_view ht ho _⟩
          · rw [hacq] at hcall'
            exact ⟨_, _, _, .produce ho (by simpa using hf) hacq,
              N.call_eq_conclude (hcall' _ rfl) fun _ ht =>
                N.writeView_setOutput_view ht ho _⟩

/-- The calls of a sink. -/
lemma acts_sink {snk : Sink} (hin : N.inputs n = [p]) (hout : N.outputs n = [])
    (side : Side) :
    ∃ result slot x, N.Acts n s.slot (.sink snk) side result slot x ∧
      N.call n (.sink snk) side s = N.conclude n side result slot x s := by
  have hview : (N.view n s).input? 0 = (N.linked? p).map s.slot := by
    simp [PortView.input?, view, hin]
  have hcall : ∀ r : Reply Sink,
      (match side with
        | .input => snk.consume (N.view n s)
        | .output => snk.demand (N.view n s)) = r →
      Processor.call side (Adapter.sink snk : Adapter τ) (N.view n s) =
        ⟨r.result, r.ports, .sink r.state⟩ := by
    rintro r rfl
    cases side <;> rfl
  rw [Sink.consume, Sink.demand, hview] at hcall
  by_cases hf : (N.feeder p).isSome = true
  · have hwrite : ∀ (t : Flow (Adapter τ)), t.slot = s.slot →
        N.writeView n ((N.view n s).setInput 0 (s.slot p).request) t =
          { t with slot := Function.update s.slot p (s.slot p).request } := by
      intro t ht
      have hset : (N.view n s).setInput 0 (s.slot p).request =
          (N.view n s).mapInputs Slot.request := by
        simp [PortView.setInput, PortView.mapInputs, view, hin, linked?, hf]
      rw [hset, N.writeView_mapInputs_view _ ht (by simp [hout])]
      congr 1
      funext q
      by_cases hq : q = p
      · subst hq
        simp [onInputs, hin, hf]
      · simp [onInputs, hin, hq]
    simp only [linked?, hf, if_true, Option.map_some] at hcall
    cases side with
    | input =>
        by_cases hfull : (s.slot p).hasData = true
        · have htake : (s.slot p).take = ((s.slot p).buffer, (s.slot p).request) :=
            if_pos hfull
          have hreply := hcall _ (if_pos hfull)
          rw [htake] at hreply
          exact ⟨_, _, _, .consume hin hf hfull,
            N.call_eq_conclude hreply hwrite⟩
        · exact ⟨_, _, _, .want hin hf fun _ => by simpa using hfull,
            N.call_eq_conclude (hcall _ (if_neg hfull)) hwrite⟩
    | output =>
        exact ⟨_, _, _, .want hin hf (by simp),
          N.call_eq_conclude (hcall _ rfl) hwrite⟩
  · have hnone : N.feeder p = none := by simpa using hf
    simp only [linked?, hf, Bool.false_eq_true, if_false, Option.map_none]
      at hcall
    have hreply := hcall (.unchanged (.error .unlinked) (N.view n s) snk)
      (by cases side <;> rfl)
    exact ⟨_, _, _, .deaf hin hnone, N.call_of_unchanged hreply⟩

/-- The calls of a mixer. -/
lemma acts_mixer {m : Mixer} (hN : N.Proper) {o : Option PortId}
    (ho : N.outputs n = [o]) (side : Side) :
    ∃ result slot x, N.Acts n s.slot (.mixer m) side result slot x ∧
      N.call n (.mixer m) side s = N.conclude n side result slot x s := by
  have hirr : ∀ p, some p ∈ N.outputs n → p ∉ N.inputs n := fun p hp =>
    hN.not_mem_inputs (List.reduceOption_mem_iff.mpr hp)
  have hcall : ∀ r : Reply Mixer, m.mix (N.view n s) = r →
      Processor.call side (Adapter.mixer m : Adapter τ) (N.view n s) =
        ⟨r.result, r.ports, .mixer r.state⟩ := by
    rintro r rfl
    cases side <;> rfl
  rw [Mixer.mix, N.output?_view s ho, any_isLinked_view, any_isMissing_view,
    any_isReady_view, countP_taken_view] at hcall
  rcases o with _ | p
  · exact ⟨_, _, _, .idle (Or.inl ho), N.call_of_unchanged (hcall _ rfl)⟩
  · simp only [Option.map_some] at hcall
    by_cases hf : (s.slot p).hasData = true
    · exact ⟨_, _, _, .hold ho hf, N.call_of_unchanged (hcall _ (if_pos hf))⟩
    · replace hcall := fun r hr => hcall r ((if_neg hf).trans hr)
      have hf' : (s.slot p).hasData = false := by simpa using hf
      by_cases hl : (N.inputs n).any fun p => (N.feeder p).isSome
      · have hl' : ∃ p ∈ N.inputs n, (N.feeder p).isSome = true := by
          simpa using hl
        replace hcall := fun r hr =>
          hcall r ((if_neg (by rw [hl]; decide)).trans hr)
        by_cases hw : (N.inputs n).any (N.isMissing s.slot) ||
            !(N.inputs n).any (N.holds s.slot)
        · refine ⟨_, _, _, .request ho hf' hl' ?_,
            N.call_eq_conclude (hcall _ (if_pos hw)) fun _ ht =>
              N.writeView_mapInputs_view _ ht hirr⟩
          simpa using hw
        · replace hcall := fun r hr => hcall r ((if_neg hw).trans hr)
          rw [Bool.or_eq_true, not_or] at hw
          have hm : ∀ p ∈ N.inputs n, N.isMissing s.slot p = false := by
            simpa using hw.1
          have hh : ∃ p ∈ N.inputs n, N.holds s.slot p = true := by
            simpa using hw.2
          rcases hacq : (m.pool.recycle (s.slot p).buffer).acquire with
            ⟨_ | b, pool⟩
          · rw [hacq] at hcall
            exact ⟨_, _, _, .spill ho hf' hm hh hacq,
              N.call_eq_conclude (hcall _ rfl) fun _ ht =>
                N.writeView_setOutput _ ht ho _⟩
          · rw [hacq] at hcall
            exact ⟨_, _, _, .mix ho hf' hm hh hacq,
              N.call_eq_conclude (hcall _ rfl) fun _ ht =>
                N.writeView_setOutput _ ht ho _⟩
      · replace hcall := fun r hr => hcall r ((if_pos (by simpa using hl)).trans hr)
        refine ⟨_, _, _, .idle (Or.inr ?_), N.call_of_unchanged (hcall _ rfl)⟩
        simpa using hl

/-- Every call of an adapter that suits its node ends in one of the ways of
`Acts`, and does the bookkeeping that goes with it. -/
theorem acts_of_call (hN : N.Proper) {x : Adapter τ} (hx : N.Suits n x)
    (side : Side) :
    ∃ result slot x', N.Acts n s.slot x side result slot x' ∧
      N.call n x side s = N.conclude n side result slot x' s := by
  cases x with
  | source src =>
      obtain ⟨-, o, ho⟩ := hx
      exact N.acts_source ho side
  | sink snk =>
      obtain ⟨⟨p, hp⟩, hout⟩ := hx
      exact N.acts_sink hp hout side
  | mixer m =>
      obtain ⟨-, o, ho⟩ := hx
      exact N.acts_mixer hN ho side
  | custom x => exact hx.elim

end MediaGraph.Network

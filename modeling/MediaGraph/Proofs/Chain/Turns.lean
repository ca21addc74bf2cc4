/-
Turns along a chain.

* `Network.Joins`, `Network.Hands`, `Network.Pipes`: the only output of one node is
  linked to an input of the next one, which waits for one input;
* `Network.Steady`: at most one input that is not optional holds data, and at most
  one node has counted an input;
* `Steady.produce`, `Steady.announce`, `Steady.mix`, `Steady.hold`,
  `Steady.consume`: the turns that hand data down to a sink;
* `Steady.shelve`: data in an optional input stays there;
* `Steady.check`, `Steady.request`: the turns that ask for data up to a source.
-/
import MediaGraph.Proofs.Forced
import MediaGraph.Proofs.WellFed

namespace MediaGraph.Network

/-! ### Neighbours -/

/-- The only output of `x` is linked to an input `p` of `y`, which waits for one
input. Other inputs of `y` are optional, and are fed at most by the driver `D`,
which is not asked. -/
structure Joins (N : Network) (D : Option NodeId) (x y : NodeId) (p : PortId) :
    Prop where
  outputs : N.outputs x = [some p]
  mem_inputs : p ∈ N.inputs y
  required : N.required y = 1
  others : ∀ q ∈ N.inputs y, q ≠ p → N.optional q = true ∧
    ∀ z, N.feeder q = some z → D = some z ∧ N.async z = false

/-- The only output of `x` is linked to the only input `p` that `y` requires. -/
structure Hands (N : Network) (D : Option NodeId) (x y : NodeId) (p : PortId) :
    Prop extends Joins N D x y p where
  optional : N.optional p = false

namespace Joins

variable {N : Network} {D : Option NodeId} {x y : NodeId} {p q : PortId}

lemma targets (h : N.Joins D x y p) : N.targets x = [p] :=
  targets_of_outputs h.outputs

lemma feeder (hN : N.Proper) (h : N.Joins D x y p) : N.feeder p = some x :=
  (hN.feeder h.mem_inputs x).mpr (by simp [h.targets])

lemma feeds (hN : N.Proper) (h : N.Joins D x y p) : N.Feeds x y :=
  ⟨p, h.mem_inputs, h.feeder hN⟩

/-- No other input is required. -/
lemma eq_of_optional (h : N.Joins D x y p) (hq : q ∈ N.inputs y)
    (ho : N.optional q = false) : q = p := by
  by_contra hne
  simp [(h.others q hq hne).1] at ho

/-- A node whose input is drained asks the node that feeds it, unless
this is a driver that is not asynchronous. -/
lemma asksIn_eq (hN : N.Proper) (h : N.Joins D x y p) {slot : PortId → Slot}
    (hneed : (slot p).status = .needData) (m : NodeId) :
    N.asksIn D slot y m = decide (m = x ∧ (D ≠ some x ∨ N.async x = true)) := by
  have hfeeder := h.feeder hN
  rw [Bool.eq_iff_iff, decide_eq_true_iff, asksIn_eq_true]
  constructor
  · rintro ⟨q, hq, hf, -, hD⟩
    rcases eq_or_ne q p with rfl | hqp
    · obtain rfl : x = m := Option.some.inj (hfeeder.symm.trans hf)
      exact ⟨rfl, hD⟩
    · obtain ⟨hm, hasync⟩ := (h.others q hq hqp).2 m hf
      simp [hm, hasync] at hD
  · rintro ⟨rfl, hD⟩
    exact ⟨p, h.mem_inputs, hfeeder, hneed, hD⟩

/-- A node whose input is drained counts no input when it checks them. -/
lemma isUntouched_eq_false (h : N.Joins D x y p) {slot : PortId → Slot}
    (hneed : (slot p).status = .needData) (hq : q ∈ N.inputs y) :
    N.isUntouched slot q = false := by
  rcases eq_or_ne q p with rfl | hqp
  · simp [isUntouched, hneed]
  · simp [isUntouched, (h.others q hq hqp).1]

end Joins

/-- The only output of `x` is linked to the only input `p` of `y`, which waits for
it if it is not optional. -/
structure Pipes (N : Network) (x y : NodeId) (p : PortId) : Prop where
  outputs : N.outputs x = [some p]
  inputs : N.inputs y = [p]
  required : N.required y = 1

namespace Pipes

variable {N : Network} {x y : NodeId} {p q : PortId}

lemma joins (h : N.Pipes x y p) (D : Option NodeId) : N.Joins D x y p where
  outputs := h.outputs
  mem_inputs := by simp [h.inputs]
  required := h.required
  others q hq hqp := by simp [h.inputs, hqp] at hq

lemma hands (h : N.Pipes x y p) (ho : N.optional p = false) (D : Option NodeId) :
    N.Hands D x y p where
  toJoins := h.joins D
  optional := ho

end Pipes

/-! ### Steady flows -/

variable {τ : Type} {d : Description} {N : Network} {D : Option NodeId}
  {s : Flow (Adapter τ)} {held : Option PortId} {busy : Option NodeId}
  {n x y z S K : NodeId} {p q : PortId}

/-- Of the inputs that are not optional only `held` holds data, and no node but
`busy` has counted an input. -/
structure Steady (d : Description) (N : Network) (held : Option PortId)
    (busy : Option NodeId) (s : Flow (Adapter τ)) : Prop where
  sound : d.Sound N s
  full : ∀ {m q}, q ∈ N.inputs m → N.optional q = false →
    (s.slot q).hasData = decide (held = some q)
  ready : ∀ {m}, busy ≠ some m → s.ready m = 0
  counted : ∀ {m q}, busy ≠ some m → q ∈ N.inputs m → s.counted q = false

/-- A node that asks for the data of its input asks for all it needs. -/
lemma Joins.heard (h : N.Joins D x y p) (hneed : (s.slot p).status = .needData) :
    N.Heard s y := by
  intro q hq ho
  obtain rfl := h.eq_of_optional hq ho
  exact Or.inr hneed

/-- A node has counted no input after its inputs were processed, and after it
was asked for output if it had counted none before. -/
lemma unready_report (hN : N.Proper) (D : Option NodeId) (n : NodeId)
    (side : Side) (verdict : Verdict) (slot : PortId → Slot) (a : Adapter τ)
    (h : side = .output →
      s.ready n = 0 ∧ ∀ q ∈ N.inputs n, s.counted q = false) :
    (report D n side (N.conclude n side (.ok verdict) slot a s)).flow.ready n = 0 ∧
      ∀ q ∈ N.inputs n, (report D n side
        (N.conclude n side (.ok verdict) slot a s)).flow.counted q = false := by
  have hreport : ∀ t : Flow (Adapter τ),
      (report D n side (.ok verdict, t)).flow.ready = t.ready ∧
        (report D n side (.ok verdict, t)).flow.counted = t.counted := by
    intro t
    simp only [report]
    split <;> exact ⟨rfl, rfl⟩
  cases side with
  | input =>
      simp only [conclude, (hreport _).1, (hreport _).2]
      exact ⟨by simp [Flow.setPhase, Flow.countCall, reset, Flow.setProcessor],
        fun q hq => by
          simp [Flow.setPhase, Flow.countCall, reset, Flow.setProcessor, hq]⟩
  | output =>
      obtain ⟨hready, hcounted⟩ := h rfl
      simp only [conclude, (hreport _).1, (hreport _).2, N.dropConsumed_eq hN]
      exact ⟨by simp [Flow.setPhase, Flow.countCall, Flow.setProcessor, hready],
        fun q hq => by simp [Flow.setPhase, Flow.countCall, Flow.setProcessor,
          hq, hcounted q hq]⟩

/-- The only node that waits is still the only one after a call, unless it is
the driver and its inputs were processed. -/
lemma Called.queued_eq {side : Side} {verdict : Verdict} {slot : PortId → Slot}
    {a : Adapter τ} {v : FlowTurn (Adapter τ)}
    (h : N.Called D n side verdict slot a s v) {φ : Phase} (hn : s.Only n φ)
    (m : NodeId) :
    v.flow.queued m = decide (m = n ∧ ¬ (side = .input ∧ D = some n)) := by
  rw [h.queued, Function.update_apply, hn.queued]
  by_cases hm : m = n <;> simp [hm]

lemma Called.only {side : Side} {verdict : Verdict} {slot : PortId → Slot}
    {a : Adapter τ} {v : FlowTurn (Adapter τ)}
    (h : N.Called D n side verdict slot a s v) {φ : Phase} (hn : s.Only n φ)
    (hD : side = .input → D ≠ some n) :
    v.flow.Only n (Node.phaseAfter verdict) where
  queued m := by
    rw [h.queued_eq hn]
    exact decide_eq_decide.mpr
      ⟨fun hm => hm.1, fun hm => ⟨hm, fun hc => hD hc.1 hc.2⟩⟩
  phase := by rw [h.phase, Function.update_self]

namespace Steady

/-- The adapter of a node of a kind. -/
lemma exists_adapter (h : Steady d N held busy s) {kind : NodeKind}
    (hn : d.kind? n = some kind) :
    ∃ a, s.processor n = some a ∧ a.kind? = some kind := by
  obtain ⟨spec, hspec, rfl⟩ := Option.map_eq_some_iff.mp hn
  exact h.sound.staffed.kind hspec

/-- The adapter of a sink. -/
lemma exists_sink (h : Steady d N held busy s) (hn : d.kind? n = some .sink) :
    ∃ snk, s.processor n = some (.sink snk) := by
  obtain ⟨a, ha, hk⟩ := h.exists_adapter hn
  cases a with
  | sink snk => exact ⟨snk, ha⟩
  | source _ | mixer _ | custom _ => cases hk

/-- In an untouched flow no link holds data and nothing is counted. -/
lemma of_untouched (hN : d.Realized N) (h : d.Untouched N s) :
    Steady d N none none s where
  sound := h.sound hN
  full hq _ := by
    rw [h.slot hq]
    split <;> rfl
  ready _ := h.ready _
  counted _ _ := h.counted _

/-- Who waits for a turn does not matter. -/
lemma clear (h : Steady d N held busy s) : Steady d N held busy s.clear :=
  ⟨h.sound.congr rfl rfl, h.full, h.ready, h.counted⟩

/-- What an optional input holds does not matter. -/
lemma forget (h : Steady d N (some p) busy s) (ho : N.optional p = true) :
    Steady d N none busy s where
  sound := h.sound
  full {m q} hq hoq := by
    have hpq : p ≠ q := by
      rintro rfl
      simp [ho] at hoq
    simpa [hpq] using h.full hq hoq
  ready := h.ready
  counted := h.counted

/-- Only `held` and optional inputs hold data. -/
lemma optional_of_hasData (h : Steady d N held busy s) (hq : q ∈ N.inputs n)
    (hheld : held ≠ some q) (hdata : (s.slot q).hasData = true) :
    N.optional q = true := by
  rw [← Bool.not_eq_false]
  intro ho
  simp [h.full hq ho, hheld] at hdata

/-- A node that asks for all it needs asks for the data of its input. -/
lemma needs (h : Steady d N none busy s) (hxy : N.Hands D x y p)
    (hneed : N.Heard s y) : (s.slot p).status = .needData := by
  have hempty : (s.slot p).hasData = false := by
    simpa using h.full hxy.mem_inputs hxy.optional
  refine (hneed p hxy.mem_inputs hxy.optional).resolve_left fun hd => ?_
  simp [Slot.hasData, hd] at hempty

variable [Processor τ]

/-- The turn of the only node that waits, whose call goes well. -/
lemma call (hN : d.Realized N) (h : Steady d N held busy s)
    (held' : Option PortId) {side : Side} (hn : s.Only n side.phase)
    {a a' : Adapter τ} (ha : s.processor n = some a)
    (hbusy : busy = none ∨ busy = some n ∧ side = .input) {verdict : Verdict}
    {slot : PortId → Slot}
    (hserve : N.serve D n s = report D n side
      (N.conclude n side (.ok verdict) slot a' (s.dequeue n).countTurn))
    (hslot : ∀ {m q}, q ∈ N.inputs m → N.optional q = false →
      (slot q).hasData = decide (held' = some q)) :
    ∃ t, N.Forced D s 1 [⟨n, side, .ok verdict⟩] t ∧ Steady d N held' none t ∧
      N.Called D n side verdict slot a' s ⟨t, some ⟨n, side, .ok verdict⟩, none⟩
    := by
  have hcalled := called hN.proper D n side verdict slot a' s
  have hself := unready_report (s := (s.dequeue n).countTurn) hN.proper D n side
    verdict slot a' (by
      rintro rfl
      have hnone : busy ≠ some n := by
        rintro rfl
        simp at hbusy
      exact ⟨h.ready hnone, fun q hq => h.counted hnone hq⟩)
  have hsound := h.sound.serve hN D n
  rw [← hserve] at hcalled hself
  rcases hv : N.serve D n s with ⟨t, call, failure⟩
  rw [hv] at hcalled hself hsound
  obtain rfl := hcalled.callback
  obtain rfl := hcalled.failure
  have hother : ∀ {m}, m ≠ n → busy ≠ some m := by
    rintro m hm rfl
    simp [hm] at hbusy
  refine ⟨t, ?_, ⟨hsound, fun hq ho => ?_, fun {m} _ => ?_,
    fun {m q} _ hq => ?_⟩, hcalled⟩
  · exact .turn hn.queued (by rw [ha]; rfl) hv .refl
  · rw [show t.slot = slot from hcalled.slot]
    exact hslot hq ho
  · rcases eq_or_ne m n with rfl | hm
    · exact hself.1
    · exact (hcalled.ready m hm).trans (h.ready (hother hm))
  · rcases eq_or_ne m n with rfl | hm
    · exact hself.2 q hq
    · exact (hcalled.counted m hm q hq).trans (h.counted (hother hm) hq)

/-- The turn of a node of a kind whose side is called. -/
lemma exists_acts (hN : d.Realized N) (h : Steady d N held busy s)
    {kind : NodeKind} (hkind : d.kind? n = some kind) (side : Side)
    (hφ : s.phase n = side.phase) :
    ∃ a r slot a', s.processor n = some a ∧ a.kind? = some kind ∧
      N.Acts n s.slot a side r slot a' ∧ N.serve D n s = report D n side
        (N.conclude n side r slot a' (s.dequeue n).countTurn) := by
  obtain ⟨a, ha, hk⟩ := h.exists_adapter hkind
  have hserves := serves hN.proper D ha (h.sound.staffed.suits hN ha)
  obtain ⟨a₁, r, slot, a', ha₁, hacts, hv⟩ := hserves.exists_acts side hφ
  obtain rfl : a = a₁ := by simpa [ha] using ha₁
  exact ⟨a, r, slot, a', ha, hk, hacts, hv⟩

/-- The turn of a node that made output. -/
lemma announces (hN : d.Realized N) (h : Steady d N held busy s)
    (hn : (d.kind? n).isSome = true) (honly : s.Only n .checkOutput) :
    N.Forced D s 1 [] (N.checkOut n (s.dequeue n).countTurn) ∧
      d.Sound N (N.checkOut n (s.dequeue n).countTurn) := by
  obtain ⟨kind, hkind⟩ := Option.isSome_iff_exists.mp hn
  obtain ⟨a, ha, -⟩ := h.exists_adapter hkind
  have hv := (serves hN.proper D ha (h.sound.staffed.suits hN ha)).eq_announce
    honly.phase
  have hsound := h.sound.serve hN D n
  rw [hv] at hsound
  exact ⟨.turn honly.queued (by rw [ha]; rfl) hv .refl, hsound⟩

/-- The turn of a node that checks its inputs. -/
lemma checks (hN : d.Realized N) (h : Steady d N held busy s)
    (hn : (d.kind? n).isSome = true) (honly : s.Only n .checkInput)
    (hrequired : 0 < N.required n) :
    N.Forced D s 1 []
        (N.checkOut n (N.checkIn D n (s.dequeue n).countTurn)) ∧
      d.Sound N (N.checkOut n (N.checkIn D n (s.dequeue n).countTurn)) := by
  obtain ⟨kind, hkind⟩ := Option.isSome_iff_exists.mp hn
  obtain ⟨a, ha, -⟩ := h.exists_adapter hkind
  have hv := (serves hN.proper D ha (h.sound.staffed.suits hN ha)).eq_check
    honly.phase (by simp [demandsNothing]; omega)
  have hsound := h.sound.serve hN D n
  rw [hv] at hsound
  exact ⟨.turn honly.queued (by rw [ha]; rfl) hv .refl, hsound⟩

omit [Processor τ] in
/-- The pool of a producer does not run out. -/
lemma acquire_ne_none (h : Steady d N held busy s) {a : Adapter τ}
    (ha : s.processor n = some a) {pool pool' : BufferPool}
    (hpool : a.pool? = some pool) (ho : N.outputs n = [some p]) :
    (pool.recycle (s.slot p).buffer).acquire ≠ (none, pool') :=
  (h.sound.whole ha hpool ho).acquire_ne_none _

/-- A mixer between two others keeps the unread data in its output, asks for data,
or leaves a mix in its output. -/
lemma exists_mixes (hN : d.Realized N) (h : Steady d N held busy s)
    (hy : d.kind? y = some .mixer) (hxy : N.Joins D x y p) (hyz : N.Joins D y z q)
    (side : Side) (hφ : s.phase y = side.phase) :
    ∃ a r slot a', s.processor y = some a ∧ N.serve D y s = report D y side
        (N.conclude y side r slot a' (s.dequeue y).countTurn) ∧
      (((s.slot q).hasData = true ∧ r = .ok .haveOutput ∧ slot = s.slot) ∨
        ((s.slot q).hasData = false ∧
          ((∃ r ∈ N.inputs y, N.isMissing s.slot r = true) ∨
            ∀ r ∈ N.inputs y, N.holds s.slot r = false) ∧
          r = .ok .needInput ∧ slot = N.onInputs y Mixer.requestIfDrained s.slot) ∨
        ((s.slot q).hasData = false ∧
          (∀ r ∈ N.inputs y, N.isMissing s.slot r = false) ∧
          (∃ r ∈ N.inputs y, N.holds s.slot r = true) ∧ r = .ok .haveOutput ∧
          ∃ b, slot = Function.update (N.onInputs y (·.take.2) s.slot) q
            (.provide b))) := by
  obtain ⟨a, r, slot, a', ha, hkind, hacts, hserve⟩ :=
    h.exists_acts (D := D) hN hy side hφ
  refine ⟨a, r, slot, a', ha, hserve, ?_⟩
  cases hacts with
  | notSupported | mute | keep | dry | produce | consume | want | deaf => cases hkind
  | idle hidle =>
      have hfeeder := hxy.feeder hN.proper
      rcases hidle with ho | hf
      · simp [hyz.outputs] at ho
      · simp [hf p hxy.mem_inputs] at hfeeder
  | spill ho _ _ _ hacq => exact absurd hacq (h.acquire_ne_none ha rfl ho)
  | hold ho hfull =>
      obtain rfl : q = _ := by simpa [hyz.outputs] using ho
      exact Or.inl ⟨hfull, rfl, rfl⟩
  | request ho hempty _ hwaits =>
      obtain rfl : q = _ := by simpa [hyz.outputs] using ho
      exact Or.inr (Or.inl ⟨hempty, hwaits, rfl, rfl⟩)
  | mix ho hempty hmissing hholds =>
      obtain rfl : q = _ := by simpa [hyz.outputs] using ho
      exact Or.inr (Or.inr ⟨hempty, hmissing, hholds, rfl, _, rfl⟩)

/-! ### Handing data down -/

/-- A source that is asked leaves a buffer in its output, unless there is one. -/
lemma produce (hN : d.Realized N) (hS : d.kind? S = some .source)
    (ho : N.outputs S = [some p]) (h : Steady d N none none s)
    (hn : s.Only S .output) :
    ∃ t, N.Forced D s 1 [⟨S, .output, .ok .haveOutput⟩] t ∧
      Steady d N (some p) none t ∧ t.Only S .checkOutput := by
  obtain ⟨a, r, slot, a', ha, hkind, hacts, hserve⟩ :=
    h.exists_acts (D := D) hN hS .output hn.phase
  cases hacts with
  | mute ho' => simp [ho] at ho'
  | keep ho' hfull =>
      obtain rfl : p = _ := by simpa [ho] using ho'
      obtain ⟨t, hforced, ht, hcalled⟩ := h.call hN (some p) hn ha
        (Or.inl rfl) hserve fun {m r} hr hor => by
          -- only an optional input can hold it
          have hpr : p ≠ r := by
            rintro rfl
            simp [h.full hr hor] at hfull
          simpa [hpr] using h.full hr hor
      exact ⟨t, hforced, ht, hcalled.only hn (by simp)⟩
  | dry ho' _ hacq => exact absurd hacq (h.acquire_ne_none ha rfl ho')
  | produce ho' _ hacq =>
      obtain rfl : p = _ := by simpa [ho] using ho'
      obtain ⟨t, hforced, ht, hcalled⟩ := h.call hN (some p) hn ha
        (Or.inl rfl) hserve fun {m r} hr hor => by
          rw [Function.update_apply]
          split
          · simp_all
          · rename_i hrp
            rw [h.full hr hor]
            simpa using Ne.symm hrp
      exact ⟨t, hforced, ht, hcalled.only hn (by simp)⟩
  | want | deaf | idle | hold | request | spill | mix => cases hkind

/-- A node that made output announces it to the next one. -/
lemma announce (hN : d.Realized N) (hxy : N.Hands D x y p)
    (h : Steady d N (some p) none s) (hx : (d.kind? x).isSome = true)
    (hn : s.Only x .checkOutput) :
    ∃ t, N.Forced D s 1 [] t ∧ Steady d N (some p) (some y) t ∧
      t.Only y .input := by
  obtain ⟨hforced, hsound⟩ := h.announces (D := D) hN hx hn
  -- the only target is found with new data, which completes the count
  have hnew : N.isNew s p = true := by
    simp [isNew, hxy.optional, Flow.full, h.full hxy.mem_inputs hxy.optional,
      h.counted (m := y) (by simp) hxy.mem_inputs]
  have hcompletes : N.completes s y p = true := by
    simp [completes, readyAfter, hnew, hxy.required, h.ready (m := y) (by simp)]
  have hannounced := announced hN.proper x hxy.mem_inputs hnew
  rw [hcompletes] at hannounced
  have hout : N.checkOut x (s.dequeue x).countTurn =
      N.announce (s.dequeue x).countTurn p := by
    rw [checkOut, hxy.targets]
    rfl
  rw [hout] at hsound hforced
  refine ⟨_, hforced, ⟨hsound, fun hq ho => ?_,
    fun {m} hm => ?_, fun {m q} hm hq => ?_⟩, ⟨fun m => ?_, ?_⟩⟩
  · rw [hannounced.slot]
    exact h.full hq ho
  · have hm : m ≠ y := fun he => hm (by rw [he])
    rw [hannounced.ready m hm]
    exact h.ready (by simp)
  · have hm : m ≠ y := fun he => hm (by rw [he])
    have hqp : q ≠ p := by
      rintro rfl
      exact hm (hN.proper.owner_unique hq hxy.mem_inputs)
    rw [hannounced.counted, Function.update_of_ne hqp]
    exact h.counted (by simp) hq
  · rw [hannounced.queued, Function.update_apply, Function.update_apply, hn.queued]
    by_cases hm : m = y
    · simp [hm]
    · by_cases hx : m = x <;> simp [hm, hx]
  · simp [hannounced.phase]

/-- Data in an optional input is not counted, and stays there. -/
lemma shelve (hN : d.Realized N) (hxy : N.Joins D x y p)
    (ho : N.optional p = true) (h : Steady d N held none s)
    (hx : (d.kind? x).isSome = true) (hn : s.Only x .checkOutput) :
    ∃ t, N.Forced D s 1 [] t ∧ Steady d N held none t ∧
      ∀ m, t.queued m = false := by
  obtain ⟨hforced, hsound⟩ := h.announces (D := D) hN hx hn
  have hqueued : ∀ m, (s.dequeue x).countTurn.queued m = false := by
    intro m
    change Function.update s.queued x false m = false
    rw [Function.update_apply, hn.queued]
    by_cases hm : m = x <;> simp [hm]
  have hout : N.checkOut x (s.dequeue x).countTurn = (s.dequeue x).countTurn := by
    have hnew : N.isNew (s.dequeue x).countTurn p = false := by simp [isNew, ho]
    rw [checkOut, hxy.targets]
    refine N.announce_eq_self hN.proper hxy.mem_inputs hnew ?_ (hqueued y)
    have hready : (s.dequeue x).countTurn.ready y = 0 := h.ready (by simp)
    simp [completes, readyAfter, hnew, hxy.required, hready]
  rw [hout] at hsound hforced
  exact ⟨_, hforced,
    ⟨hsound, h.full, h.ready, h.counted⟩, hqueued⟩

/-- A mixer whose input holds data and whose output holds none hands on what it
makes of it. If it is the driver and its inputs were processed, nobody waits. -/
lemma mix (hN : d.Realized N) (hy : d.kind? y = some .mixer)
    (hxy : N.Joins D x y p) (hyz : N.Joins D y z q) (side : Side)
    (h : Steady d N held busy s) (hheld : ∀ r, held = some r → r = p)
    (hbusy : busy = none ∨ busy = some y ∧ side = .input)
    (hn : s.Only y side.phase) (hp : (s.slot p).hasData = true)
    (hq : (s.slot q).hasData = false) :
    ∃ t, N.Forced D s 1 [⟨y, side, .ok .haveOutput⟩] t ∧
      Steady d N (some q) none t ∧
      (∀ m, t.queued m = decide (m = y ∧ ¬ (side = .input ∧ D = some y))) ∧
      t.phase y = .checkOutput ∧ N.Heard t y := by
  have hfeeder := hxy.feeder hN.proper
  have hpq : p ≠ q := by
    rintro rfl
    simp [hp] at hq
  obtain ⟨a, r, slot, a', ha, hserve, hcases⟩ :=
    h.exists_mixes hN hy hxy hyz side hn.phase
  rcases hcases with ⟨hfull, -⟩ | ⟨-, hwaits, -⟩ | ⟨-, -, -, rfl, b, rfl⟩
  · simp [hq] at hfull
  · rcases hwaits with ⟨r, hr, hmissing⟩ | hnone
    · rcases eq_or_ne r p with rfl | hrp
      · simp [isMissing, hp] at hmissing
      · simp [isMissing, (hxy.others r hr hrp).1] at hmissing
    · simpa [holds, hp, hfeeder] using hnone p hxy.mem_inputs
  · have htaken : N.onInputs y (·.take.2) s.slot p = (s.slot p).request := by
      simp [onInputs, hfeeder, Slot.take, hp, hxy.mem_inputs]
    obtain ⟨t, hforced, ht, hcalled⟩ := h.call hN (some q) hn ha
      hbusy hserve fun {m r} hr hor => by
        rw [Function.update_apply]
        by_cases hrq : r = q
        · simp [hrq]
        · rw [if_neg hrq, decide_eq_false (by simpa using Ne.symm hrq)]
          by_cases hrp : r = p
          · rw [hrp, htaken]
            rfl
          · -- the other inputs of the mixer are optional
            rw [onInputs, if_neg fun hc => by
                simp [(hxy.others r hc.1 hrp).1] at hor, h.full hr hor]
            simpa using fun hc => hrp (hheld r hc)
    refine ⟨t, hforced, ht, hcalled.queued_eq hn, ?_, fun r hr ho => ?_⟩
    · rw [show t.phase = _ from hcalled.phase, Function.update_self]
      rfl
    · obtain rfl := hxy.eq_of_optional hr ho
      rw [show t.slot = _ from hcalled.slot, Function.update_of_ne hpq, htaken]
      exact Or.inr rfl

/-- A mixer whose output holds unread data announces that again. -/
lemma hold (hN : d.Realized N) (hy : d.kind? y = some .mixer)
    (hxy : N.Joins D x y p) (hyz : N.Joins D y z q) (side : Side)
    (h : Steady d N held busy s)
    (hbusy : busy = none ∨ busy = some y ∧ side = .input)
    (hn : s.Only y side.phase) (hq : (s.slot q).hasData = true) :
    ∃ t, N.Forced D s 1 [⟨y, side, .ok .haveOutput⟩] t ∧ Steady d N held none t ∧
      (∀ m, t.queued m = decide (m = y ∧ ¬ (side = .input ∧ D = some y))) ∧
      t.phase y = .checkOutput := by
  obtain ⟨a, r, slot, a', ha, hserve, hcases⟩ :=
    h.exists_mixes hN hy hxy hyz side hn.phase
  rcases hcases with ⟨-, rfl, rfl⟩ | ⟨hempty, -⟩ | ⟨hempty, -⟩
  · obtain ⟨t, hforced, ht, hcalled⟩ := h.call hN held hn ha hbusy hserve h.full
    refine ⟨t, hforced, ht, hcalled.queued_eq hn, ?_⟩
    rw [show t.phase = _ from hcalled.phase, Function.update_self]
    rfl
  · simp [hq] at hempty
  · simp [hq] at hempty

/-- A sink that is handed data consumes it. -/
lemma consume (hN : d.Realized N) (hK : d.kind? K = some .sink)
    (hxK : N.Hands D x K p) (h : Steady d N (some p) (some K) s)
    (hn : s.Only K .input) {snk : Sink} (hsnk : s.processor K = some (.sink snk)) :
    ∃ t, N.Forced D s 1 [⟨K, .input, .ok .needInput⟩] t ∧
      Steady d N none none t ∧ N.Heard t K ∧
      (∀ m, t.queued m = decide (m = K ∧ D ≠ some K)) ∧
      t.phase K = .checkInput ∧
      ∃ snk', t.processor K = some (.sink snk') ∧
        snk'.received = snk.received + 1 := by
  obtain ⟨a, r, slot, a', ha, hkind, hacts, hserve⟩ :=
    h.exists_acts (D := D) hN hK .input hn.phase
  obtain rfl : a = .sink snk := by simpa [hsnk, eq_comm] using ha
  have hfeeder := hxK.feeder hN.proper
  have hfull : (s.slot p).hasData = true := by
    simpa using h.full hxK.mem_inputs hxK.optional
  cases hacts with
  | deaf hin hf =>
      obtain rfl : p = _ := by simpa [hin] using hxK.mem_inputs
      simp [hf] at hfeeder
  | want hin _ hside =>
      obtain rfl : p = _ := by simpa [hin] using hxK.mem_inputs
      simp [hfull] at hside
  | consume hin =>
      obtain rfl : p = _ := by simpa [hin] using hxK.mem_inputs
      obtain ⟨t, hforced, ht, hcalled⟩ := h.call hN none hn ha
        (Or.inr ⟨rfl, rfl⟩) hserve fun {m r} hr hor => by
          rw [Function.update_apply]
          split
          · rfl
          · rename_i hrp
            rw [h.full hr hor]
            simpa using Ne.symm hrp
      refine ⟨t, hforced, ht, fun r hr ho => ?_, fun m => ?_, ?_, _,
        (congrFun hcalled.processor K).trans (Function.update_self ..), rfl⟩
      · obtain rfl := hxK.eq_of_optional hr ho
        rw [show t.slot = _ from hcalled.slot, Function.update_self]
        exact Or.inr rfl
      · simpa using hcalled.queued_eq hn m
      · rw [show t.phase = _ from hcalled.phase, Function.update_self]
        rfl

/-! ### Asking for data -/

/-- A check that counts no input asks those that feed the drained ones, and
announces nothing. -/
lemma look (hN : d.Realized N) (hrequired : N.required y = 1)
    (hy : (d.kind? y).isSome = true) (h : Steady d N none none s)
    (hn : s.Only y .checkInput)
    (huntouched : ∀ q ∈ N.inputs y, N.isUntouched s.slot q = false)
    (hback : ∀ m, N.asksIn D s.slot y m = true → ¬ N.Feeds y m) :
    ∃ t, N.Forced D s 1 [] t ∧ Steady d N none none t ∧
      (∀ m, t.queued m = N.asksIn D s.slot y m) ∧
      ∀ m, N.asksIn D s.slot y m = true → t.phase m = .output := by
  obtain ⟨hforced, hsound⟩ := h.checks (D := D) hN hy hn (by omega)
  have hchecked := checked hN.proper D y s
  generalize N.checkIn D y (s.dequeue y).countTurn = u at hchecked hsound hforced
  have hu : ∀ m, u.ready m = 0 := by
    intro m
    rcases eq_or_ne m y with rfl | hm
    · rw [hchecked.ready_self, List.countP_eq_zero]
      simpa using huntouched
    · rw [hchecked.ready m hm]
      exact h.ready (by simp)
  have hqueued : ∀ m, u.queued m = N.asksIn D s.slot y m := by
    intro m
    rw [hchecked.queued, Function.update_apply, hn.queued]
    by_cases hm : m = y <;> simp [hm]
  -- the announcements find nothing
  have hout : N.checkOut y u = u := by
    refine checkOut_induction (P := fun t => t = u) hN.proper rfl ?_
    rintro t c q hq hc rfl
    have hnew : N.isNew t q = false := by
      cases ho : N.optional q
      · simp [isNew, Flow.full, hchecked.slot, h.full hc ho]
      · simp [isNew, ho]
    refine N.announce_eq_self hN.proper hc hnew ?_ ?_
    · simp [completes, readyAfter, hnew, hu]
      omega
    · rw [hqueued, Bool.eq_false_iff]
      exact fun hasks => hback c hasks ⟨q, hc, (hN.proper.feeder hc y).mpr hq⟩
  rw [hout] at hsound hforced
  refine ⟨u, hforced, ⟨hsound, fun hq ho => ?_,
    fun {m} _ => hu m, fun {m q} _ hq => ?_⟩, hqueued, fun m hasks => ?_⟩
  · rw [hchecked.slot]
    exact h.full hq ho
  · rcases eq_or_ne m y with rfl | hm
    · rw [hchecked.counted_self q hq, huntouched q hq]
    · rw [hchecked.counted m hm q hq]
      exact h.counted (by simp) hq
  · rw [hchecked.phase, if_pos hasks]

/-- A check of a node whose input is drained asks the node that feeds it, unless
this is a driver that is not asynchronous. -/
lemma check (hN : d.Realized N) (hxy : N.Joins D x y p) (hback : ¬ N.Feeds y x)
    (hy : (d.kind? y).isSome = true) (h : Steady d N none none s)
    (hn : s.Only y .checkInput) (hneed : (s.slot p).status = .needData) :
    ∃ t, N.Forced D s 1 [] t ∧ Steady d N none none t ∧
      (∀ m, t.queued m = decide (m = x ∧ (D ≠ some x ∨ N.async x = true))) ∧
      (D ≠ some x → t.phase x = .output) := by
  have hasks := hxy.asksIn_eq hN.proper hneed
  obtain ⟨t, hst, ht, hqueued, hphase⟩ := h.look (D := D) hN hxy.required hy hn
    (fun q => hxy.isUntouched_eq_false hneed) fun m hm => by
      obtain ⟨rfl, -⟩ := of_decide_eq_true ((hasks m).symm.trans hm)
      exact hback
  exact ⟨t, hst, ht, fun m => (hqueued m).trans (hasks m),
    fun hD => hphase x (by simp [hasks, hD])⟩

/-- A check of a node whose input holds data asks nobody. -/
lemma sated (hN : d.Realized N) (hxy : N.Joins D x y p)
    (hy : (d.kind? y).isSome = true) (h : Steady d N none none s)
    (hn : s.Only y .checkInput) (hp : (s.slot p).status = .haveData) :
    ∃ t, N.Forced D s 1 [] t ∧ Steady d N none none t ∧
      ∀ m, t.queued m = false := by
  have hasks : ∀ m, N.asksIn D s.slot y m = false := by
    intro m
    rw [Bool.eq_false_iff, Ne, asksIn_eq_true]
    rintro ⟨q, hq, hf, hneed, hD⟩
    rcases eq_or_ne q p with rfl | hqp
    · simp [hp] at hneed
    · obtain ⟨rfl, hasync⟩ := (hxy.others q hq hqp).2 m hf
      simp [hasync] at hD
  obtain ⟨t, hst, ht, hqueued, -⟩ := h.look (D := D) hN hxy.required hy hn
    (fun q hq => by
      rcases eq_or_ne q p with rfl | hqp
      · simp [isUntouched, hp]
      · simp [isUntouched, (hxy.others q hq hqp).1])
    (by simp [hasks])
  exact ⟨t, hst, ht, fun m => (hqueued m).trans (hasks m)⟩

/-- A mixer that is asked while neither its output nor its input holds data asks for
some, and no link gains or loses data. -/
lemma request (hN : d.Realized N) (hy : d.kind? y = some .mixer)
    (hxy : N.Joins D x y p) (hyz : N.Joins D y z q)
    (hsole : N.optional p = false ∨ N.inputs y = [p])
    (h : Steady d N none none s) (hn : s.Only y .output)
    (hp : (s.slot p).hasData = false) (hq : (s.slot q).hasData = false) :
    ∃ t, N.Forced D s 1 [⟨y, .output, .ok .needInput⟩] t ∧
      Steady d N none none t ∧ t.Only y .checkInput ∧
      (t.slot p).status = .needData ∧
      ∀ r, (t.slot r).hasData = (s.slot r).hasData := by
  have hfeeder := hxy.feeder hN.proper
  -- without the data of `p` there is nothing to mix
  have hidle : (∀ r ∈ N.inputs y, N.isMissing s.slot r = false) →
      ∀ r ∈ N.inputs y, N.holds s.slot r ≠ true := by
    rintro hmissing r hr hr'
    rcases hsole with ho | hin
    · simpa [isMissing, hp, hfeeder, ho] using hmissing p hxy.mem_inputs
    · obtain rfl : r = p := by simpa [hin] using hr
      simp [holds, hp] at hr'
  obtain ⟨a, r, slot, a', ha, hserve, hcases⟩ :=
    h.exists_mixes hN hy hxy hyz .output hn.phase
  rcases hcases with ⟨hfull, -⟩ | ⟨-, -, rfl, rfl⟩ |
    ⟨-, hmissing, ⟨r, hr, hholds⟩, -⟩
  · simp [hq] at hfull
  · obtain ⟨t, hforced, ht, hcalled⟩ := h.call hN none hn ha (Or.inl rfl) hserve
      fun hr hor => (N.hasData_onInputs_requestIfDrained _ _ _).trans (h.full hr hor)
    have hslot : t.slot = _ := hcalled.slot
    refine ⟨t, hforced, ht, hcalled.only hn (by simp), ?_, fun r => ?_⟩
    · rw [hslot, onInputs, if_pos ⟨hxy.mem_inputs, by simp [hfeeder]⟩,
        Mixer.requestIfDrained, hp]
      rfl
    · rw [hslot, hasData_onInputs_requestIfDrained]
  · exact absurd hholds (hidle hmissing r hr)

end Steady

end MediaGraph.Network

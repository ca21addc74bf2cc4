/-
What one call does to a mixer.

* `PortView.Ready`, `PortView.Drained`: inputs that are linked, with and without data;
* `PortView.Revised`: the slots of all linked inputs change in the same way, and nothing
  else about the inputs does;
* `Mixer.Waits`: a required input is drained, or none is ready;
* `Mixer.Replies`: the reply in each of the situations that a mixer can be in, up to the
  one in which its pool is exhausted;
* `Mixer.call_replies`: both callbacks reply like that, whatever the ports and the pool
  are;
* `Mixer.failure_drains`: a call that finds the pool exhausted has read the inputs
  already, and what it read is lost.
-/
import MediaGraph.Proofs.FreeBuffers

namespace MediaGraph

/-! ### Inputs -/

namespace PortView

variable {v w : PortView} {i : ℕ} {f : Slot → Slot}

/-- An input is linked and holds data. -/
def Ready (v : PortView) (i : ℕ) : Prop := ∃ s, v.input? i = some s ∧ s.hasData = true

/-- An input is linked and holds no data. -/
def Drained (v : PortView) (i : ℕ) : Prop := ∃ s, v.input? i = some s ∧ s.hasData = false

/-- The inputs that hold data and name it. -/
def loaded (v : PortView) : Finset ℕ :=
  (Finset.range v.inputs.length).filter fun i =>
    (v.input? i).any fun s => s.hasData && s.buffer.isSome

/-- The slot of each linked input becomes what `f` makes of it, and nothing else about the
inputs changes. -/
structure Revised (f : Slot → Slot) (v w : PortView) : Prop where
  length : w.inputs.length = v.inputs.length
  optional : ∀ i, w.isOptional i = v.isOptional i
  input : ∀ i, w.input? i = (v.input? i).map f

lemma revised_mapInputs (v : PortView) (f : Slot → Slot) : v.Revised f (v.mapInputs f) where
  length := by simp [mapInputs]
  optional i := by simp [isOptional, mapInputs, Option.any_map]
  input i := by
    simp only [input?, mapInputs, List.getElem?_map]
    cases v.inputs[i]? <;> rfl

/-- A pass over the inputs finds one exactly when an index leads to one. -/
lemma any_inputs (v : PortView) (q : Bool → Slot → Bool) :
    (v.inputs.any fun p => p.slot.any (q p.optional)) = true ↔
      ∃ i s, v.input? i = some s ∧ q (v.isOptional i) s = true := by
  rw [List.any_eq_true]
  constructor
  · rintro ⟨p, hp, hq⟩
    obtain ⟨i, hi⟩ := List.mem_iff_getElem?.mp hp
    obtain ⟨s, hs, hqs⟩ := (Option.any_eq_true _ _).mp hq
    exact ⟨i, s, by rw [input?, hi]; exact hs, by rw [isOptional, hi]; exact hqs⟩
  · rintro ⟨i, s, hs, hq⟩
    obtain ⟨p, hp, hps⟩ := Option.bind_eq_some_iff.mp hs
    rw [isOptional, hp] at hq
    exact ⟨p, List.mem_of_getElem? hp, by rw [hps]; exact hq⟩

lemma any_isLinked : v.inputs.any Mixer.isLinked = true ↔ ∃ i, (v.input? i).isSome := by
  have hany : Mixer.isLinked = fun p => p.slot.any fun _ => true := by
    funext p
    rw [Mixer.isLinked]
    cases p.slot <;> rfl
  rw [hany, any_inputs v fun _ _ => true]
  simp [Option.isSome_iff_exists]

lemma any_isReady : v.inputs.any Mixer.isReady = true ↔ ∃ i, v.Ready i :=
  any_inputs v fun _ => Slot.hasData

lemma any_isMissing :
    v.inputs.any Mixer.isMissing = true ↔ ∃ i, v.Drained i ∧ v.isOptional i = false := by
  have hany : Mixer.isMissing = fun p => p.slot.any fun s => !s.hasData && !p.optional := by
    funext p
    rw [Mixer.isMissing]
    cases p.slot <;> rfl
  rw [hany, any_inputs v fun o s => !s.hasData && !o]
  simp [Drained, ← and_assoc]

/-- What a pass over a list counts are the indices that lead to it. -/
lemma countP_eq_card {α : Type*} (q : α → Bool) (l : List α) :
    l.countP q = ((Finset.range l.length).filter fun i => l[i]?.any q).card := by
  induction l using List.reverseRecOn with
  | nil => rfl
  | append_singleton l a ih =>
      have hinit : ((Finset.range l.length).filter fun i => (l ++ [a])[i]?.any q) =
          (Finset.range l.length).filter fun i => l[i]?.any q :=
        Finset.filter_congr fun i hi => by
          rw [List.getElem?_append_left (Finset.mem_range.mp hi)]
      rw [List.countP_append, ih, List.length_append, List.length_singleton,
        Finset.range_add_one, Finset.filter_insert, List.getElem?_concat_length, hinit]
      cases hq : q a <;> simp [hq]

/-- The inputs that hold data and name it are counted in one pass over the inputs. -/
lemma countP_inputs (v : PortView) :
    (v.inputs.countP fun p => p.slot.any fun s => s.take.1.isSome) = v.loaded.card := by
  have hbuffer : ∀ s : Slot, s.take.1.isSome = (s.hasData && s.buffer.isSome) := by
    intro s
    rw [Slot.take]
    cases s.hasData <;> rfl
  rw [countP_eq_card, loaded]
  congr 2
  funext i
  rw [input?]
  cases v.inputs[i]? <;> simp [hbuffer]

end PortView

/-! ### Calls -/

namespace Mixer

/-- A mixer waits for data: a required input is drained, or none is ready. -/
def Waits (v : PortView) : Prop :=
  (∃ i, v.Drained i ∧ v.isOptional i = false) ∨ ∀ i, ¬ v.Ready i

/-- How a mixer with these ports replies, unless its pool is exhausted. -/
structure Replies (m : Mixer) (v : PortView) (r : Reply Mixer) : Prop where
  /-- Without an output it fails. -/
  mute : v.output? 0 = none → r = .unchanged (.error .unlinked) v m
  /-- It does nothing before its output was read. -/
  full : ∀ out, v.output? 0 = some out → out.hasData = true →
    r = .unchanged (.ok .haveOutput) v m
  /-- Without inputs it fails. -/
  deaf : ∀ out, v.output? 0 = some out → out.hasData = false →
    (∀ i, v.input? i = none) → r = .unchanged (.error .unlinked) v m
  /-- If it has to wait then it asks its drained inputs for data. -/
  waits : ∀ out, v.output? 0 = some out → out.hasData = false →
    (∃ i, (v.input? i).isSome) → Waits v →
    r.result = .ok .needInput ∧ r.state = m ∧ r.ports.outputs = v.outputs ∧
      v.Revised (fun s => if s.hasData then s else { s with status := .needData }) r.ports
  /-- Otherwise it reads what its inputs hold and provides the free buffer with the least
  name, once the one that its output names is taken back. -/
  mixes : ∀ out, v.output? 0 = some out → out.hasData = false → ¬ Waits v →
    (m.pool.freeWith out.buffer).Nonempty →
    ∃ b, IsLeast (m.pool.freeWith out.buffer : Set ℕ) b ∧ r.result = .ok .haveOutput ∧
      v.Revised (fun s => if s.hasData then { s with status := .needData } else s) r.ports ∧
      r.ports.outputs = v.outputs.set 0 (some ⟨.haveData, some ⟨b⟩⟩) ∧
      r.state.mixes = m.mixes + 1 ∧ r.state.consumed = m.consumed + v.loaded.card ∧
      r.state.pool.size = m.pool.size ∧
      r.state.pool.freeNames = (m.pool.freeWith out.buffer).erase b

variable {m : Mixer} {v : PortView} {out : Slot} {pool : BufferPool}

/-- Both callbacks of a mixer do the same. -/
lemma call_eq_mix (m : Mixer) (side : Side) (v : PortView) :
    Processor.call side m v = m.mix v := by
  cases side <;> rfl

lemma waits_iff :
    Waits v ↔ (v.inputs.any isMissing || !v.inputs.any isReady) = true := by
  rw [Waits, ← PortView.any_isMissing, Bool.or_eq_true, Bool.not_eq_true',
    ← Bool.not_eq_true, PortView.any_isReady, not_exists]

lemma mix_of_waits (hout : v.output? 0 = some out) (hdata : out.hasData = false)
    (hlinked : ∃ i, (v.input? i).isSome) (hw : Waits v) :
    m.mix v = .unchanged (.ok .needInput) (v.mapInputs requestIfDrained) m := by
  simp [mix, hout, hdata, PortView.any_isLinked.mpr hlinked, waits_iff.mp hw]

lemma not_waits_iff :
    ¬ Waits v ↔ (v.inputs.any isMissing || !v.inputs.any isReady) = false := by
  rw [waits_iff, Bool.not_eq_true]

lemma exists_ready (hw : ¬ Waits v) : ∃ i, v.Ready i := by
  simpa [Waits] using (not_or.mp hw).2

lemma any_isLinked_of_not_waits (hw : ¬ Waits v) : v.inputs.any isLinked = true := by
  obtain ⟨i, s, hs, -⟩ := exists_ready hw
  exact PortView.any_isLinked.mpr ⟨i, by rw [hs]; rfl⟩

/-- A mixer that need not wait reads its inputs and provides what its pool hands out. -/
lemma mix_of_acquire {b : BufferId} (hout : v.output? 0 = some out)
    (hdata : out.hasData = false) (hw : ¬ Waits v)
    (hacq : (m.pool.recycle out.buffer).acquire = (some b, pool)) :
    m.mix v = ⟨.ok .haveOutput, (v.mapInputs (·.take.2)).setOutput 0 (.provide b),
      { pool, mixes := m.mixes + 1, consumed := m.consumed + v.loaded.card }⟩ := by
  simp [mix, hout, hdata, any_isLinked_of_not_waits hw, not_waits_iff.mp hw, hacq,
    PortView.countP_inputs]

/-- It reads them all the same when its pool has nothing to hand out. -/
lemma mix_of_exhausted (hout : v.output? 0 = some out) (hdata : out.hasData = false)
    (hw : ¬ Waits v) (hacq : (m.pool.recycle out.buffer).acquire = (none, pool)) :
    m.mix v = ⟨.error (.failed "buffer pool exhausted"),
      (v.mapInputs (·.take.2)).setOutput 0 { out with buffer := none },
      { m with pool, consumed := m.consumed + v.loaded.card }⟩ := by
  simp [mix, hout, hdata, any_isLinked_of_not_waits hw, not_waits_iff.mp hw, hacq,
    PortView.countP_inputs]

/-- The ports after the inputs were read and the output was written. -/
lemma outputs_setOutput (hout : v.output? 0 = some out) (f : Slot → Slot) (c : Slot) :
    ((v.mapInputs f).setOutput 0 c).outputs = v.outputs.set 0 (some c) := by
  obtain ⟨rest, hv⟩ := PortView.output?_zero_eq_some.mp hout
  simp [PortView.setOutput, PortView.mapInputs, hv]

lemma revised_setOutput (v : PortView) (f : Slot → Slot) (c : Slot) :
    v.Revised f ((v.mapInputs f).setOutput 0 c) :=
  { v.revised_mapInputs f with }

/-- Both callbacks of a mixer do the same in each of its situations. -/
theorem call_replies (m : Mixer) (side : Side) (v : PortView) :
    m.Replies v (Processor.call side m v) := by
  rw [call_eq_mix]
  refine ⟨fun hout => ?_, fun out hout hdata => ?_, fun out hout hdata hnone => ?_,
    fun out hout hdata hlinked hw => ?_, fun out hout hdata hw hfree => ?_⟩
  · simp [mix, hout]
  · simp [mix, hout, hdata]
  · have hlinked : v.inputs.any isLinked = false := by
      rw [← Bool.not_eq_true, PortView.any_isLinked]
      simp [hnone]
    simp [mix, hout, hdata, hlinked]
  · rw [mix_of_waits hout hdata hlinked hw]
    exact ⟨rfl, rfl, rfl, v.revised_mapInputs _⟩
  · obtain ⟨b, hb⟩ : ∃ b, IsLeast (m.pool.freeWith out.buffer : Set ℕ) b :=
      ⟨_, Finset.isLeast_min' _ hfree⟩
    obtain ⟨pool, hacq, hsize, hnames⟩ := BufferPool.acquire_recycle_of_isLeast hb
    rw [mix_of_acquire hout hdata hw hacq]
    have htake : (fun s : Slot => s.take.2) =
        fun s => if s.hasData then { s with status := .needData } else s := by
      funext s
      rw [Slot.take]
      split <;> rfl
    exact ⟨b, hb, rfl, htake ▸ revised_setOutput v _ _, outputs_setOutput hout _ _, rfl, rfl,
      hsize, hnames⟩

/-! ### Exhausted pools -/

/-- A mixer need not wait, but its pool has nothing to hand out, even if it takes back the
buffer that the output names. -/
def Exhausted (m : Mixer) (v : PortView) : Prop :=
  ∃ out, v.output? 0 = some out ∧ out.hasData = false ∧ ¬ Waits v ∧
    m.pool.freeWith out.buffer = ∅

/-- What a mixer replies that reads its inputs and mixes nothing. -/
structure Spills (m : Mixer) (v : PortView) (r : Reply Mixer) : Prop where
  result : r.result = .error (.failed "buffer pool exhausted")
  ready : ∃ i, v.Ready i
  inputs : v.Revised (·.take.2) r.ports
  consumed : r.state.consumed = m.consumed + v.loaded.card
  mixes : r.state.mixes = m.mixes
  /-- Whatever buffers the pool gets back, the next call finds nothing to mix. -/
  lost : ∀ side pool, (Processor.call side { r.state with pool } r.ports).result =
    .ok .needInput

/-- An input that was read holds no data. -/
lemma not_ready_of_revised {w : PortView} (h : v.Revised (·.take.2) w) (i : ℕ) :
    ¬ w.Ready i := by
  rintro ⟨s, hs, hdata⟩
  rw [h.input, Option.map_eq_some_iff] at hs
  obtain ⟨c, -, rfl⟩ := hs
  simp at hdata

lemma Exhausted.spills (h : m.Exhausted v) (side : Side) :
    m.Spills v (Processor.call side m v) := by
  obtain ⟨out, hout, hdata, hw, hfree⟩ := h
  have hready := exists_ready hw
  rw [call_eq_mix, mix_of_exhausted hout hdata hw (BufferPool.acquire_recycle_of_empty hfree)]
  refine ⟨rfl, hready, revised_setOutput v _ _, rfl, rfl, fun side' pool => ?_⟩
  -- the output is still unread and the inputs are linked as before, but drained
  have hrevised := revised_setOutput v (·.take.2) { out with buffer := none }
  have houtput : ((v.mapInputs (·.take.2)).setOutput 0 { out with buffer := none }).output? 0 =
      some { out with buffer := none } := by
    obtain ⟨rest, hv⟩ := PortView.output?_zero_eq_some.mp hout
    rw [PortView.output?, outputs_setOutput hout, hv]
    rfl
  obtain ⟨i, s, hs, -⟩ := hready
  refine congrArg Reply.result ((call_eq_mix _ side' _).trans (mix_of_waits houtput ?_ ?_ ?_))
  · simpa [Slot.hasData] using hdata
  · exact ⟨i, by rw [hrevised.input, hs]; rfl⟩
  · exact Or.inr (not_ready_of_revised hrevised)

/-- A call of a mixer that fails for want of a link changes nothing. One that fails for
want of a buffer has read its inputs already, and what it read is lost. -/
theorem failure_drains {side : Side} {e : ProcessError}
    (h : (Processor.call side m v).result = .error e) :
    (e = .unlinked ∧ Processor.call side m v = .unchanged (.error e) v m) ∨
      (m.Exhausted v ∧ m.Spills v (Processor.call side m v)) := by
  have hr := call_replies m side v
  have hunlinked : Processor.call side m v = .unchanged (.error .unlinked) v m →
      e = .unlinked ∧ Processor.call side m v = .unchanged (.error e) v m := by
    intro heq
    rw [heq] at h
    cases h
    exact ⟨rfl, heq⟩
  cases hout : v.output? 0 with
  | none => exact Or.inl (hunlinked (hr.mute hout))
  | some out =>
      cases hdata : out.hasData with
      | true =>
          rw [hr.full out hout hdata] at h
          cases h
      | false =>
          by_cases hlinked : ∃ i, (v.input? i).isSome
          · by_cases hw : Waits v
            · rw [(hr.waits out hout hdata hlinked hw).1] at h
              cases h
            · rcases (m.pool.freeWith out.buffer).eq_empty_or_nonempty with hfree | hfree
              · have hex : m.Exhausted v := ⟨out, hout, hdata, hw, hfree⟩
                exact Or.inr ⟨hex, hex.spills side⟩
              · obtain ⟨b, -, hok, -⟩ := hr.mixes out hout hdata hw hfree
                rw [hok] at h
                cases h
          · refine Or.inl (hunlinked (hr.deaf out hout hdata fun i => ?_))
            by_contra hi
            exact hlinked ⟨i, Option.isSome_iff_ne_none.mpr hi⟩

/-- One input that holds data, and an output whose buffer a consumer has taken away. -/
def taken : PortView := ⟨[⟨false, some (.provide ⟨0⟩)⟩], [some ⟨.needData, none⟩]⟩

/-- A mixer with one buffer, which was provided once. -/
def spent : Mixer := (Processor.call .input (ofBuffers 1) taken).state

theorem failure_drains_spent :
    (Processor.call .input spent taken).result = .error (.failed "buffer pool exhausted") ∧
      spent.Spills taken (Processor.call .input spent taken) := by
  have h : (Processor.call .input spent taken).result =
      .error (.failed "buffer pool exhausted") := by decide
  exact ⟨h, (failure_drains h).elim (fun hu => absurd hu.1 (by decide)) fun hs => hs.2⟩

/-- A call that failed has taken data out of an input and has counted it. -/
theorem failure_consumes :
    (Processor.call .input spent taken).result = .error (.failed "buffer pool exhausted") ∧
      (Processor.call .input spent taken).ports.inputs ≠ taken.inputs ∧
      (Processor.call .input spent taken).state.consumed ≠ spent.consumed := by
  decide

end Mixer

end MediaGraph

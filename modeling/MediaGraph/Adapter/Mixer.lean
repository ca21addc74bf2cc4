/-
Mixers: any number of inputs folded into one output.

* `Mixer`: the pool, the number of output buffers made and of input buffers
  consumed.
* `Mixer.mix`: reads every input that holds data and leaves one buffer in the
  output, provided that no required input is still missing; otherwise asks the
  inputs without data for some.
-/
import MediaGraph.Adapter.Pool
import MediaGraph.Processor

namespace MediaGraph

/-- A node that folds one buffer from each input into one. -/
structure Mixer where
  pool : BufferPool
  mixes : Nat := 0
  consumed : Nat := 0
deriving DecidableEq, Repr

namespace Mixer

/-- A mixer with a pool of `buffers` buffers. -/
def ofBuffers (buffers : Nat) : Mixer := { pool := .ofSize buffers }

/-- Whether an input is linked. -/
def isLinked (p : InputView) : Bool := p.slot.isSome

/-- Whether an input holds data. -/
def isReady (p : InputView) : Bool := p.slot.any (·.hasData)

/-- Whether an input keeps the mixer waiting: it is linked and required, and
holds no data. -/
def isMissing (p : InputView) : Bool :=
  p.slot.any (fun s => !s.hasData) && !p.optional

/-- Asks for data, unless there is some. -/
def requestIfDrained (s : Slot) : Slot := if s.hasData then s else s.request

@[simp] theorem hasData_requestIfDrained (s : Slot) :
    (requestIfDrained s).hasData = s.hasData := by
  unfold requestIfDrained
  split <;> simp_all

@[simp] theorem buffer_requestIfDrained (s : Slot) :
    (requestIfDrained s).buffer = s.buffer := by
  unfold requestIfDrained
  split <;> rfl

/-- Folds the inputs into the first output. When the pool runs out, the inputs
are already read. -/
def mix (m : Mixer) (v : PortView) : Reply Mixer :=
  match v.output? 0 with
  | none => .unchanged (.error .unlinked) v m
  | some out =>
    if out.hasData then .unchanged (.ok .haveOutput) v m
    else if !v.inputs.any isLinked then .unchanged (.error .unlinked) v m
    else if v.inputs.any isMissing || !v.inputs.any isReady then
      .unchanged (.ok .needInput) (v.mapInputs requestIfDrained) m
    else
      let taken := v.mapInputs (·.take.2)
      let consumed := m.consumed +
        v.inputs.countP fun p => p.slot.any fun s => s.take.1.isSome
      match (m.pool.recycle out.buffer).acquire with
      | (none, pool) =>
        { result := .error (.failed "buffer pool exhausted")
          ports := taken.setOutput 0 { out with buffer := none }
          state := { m with pool, consumed } }
      | (some b, pool) =>
        { result := .ok .haveOutput
          ports := taken.setOutput 0 (.provide b)
          state := { pool, mixes := m.mixes + 1, consumed } }

instance : Processor Mixer where
  input := mix
  output := mix
  reuse m _ b := { m with pool := (m.pool.release b).2 }
  name _ := "mixer"

end Mixer

end MediaGraph

/-
Sources: one output, and a fresh buffer whenever they are asked.

* `Source`: the pool and the number of buffers produced.
* `Source.produce`: leaves a buffer in the output, unless the last one was not
  read yet. The buffer that the consumer read before is recycled first.
-/
import MediaGraph.Adapter.Pool
import MediaGraph.Processor

namespace MediaGraph

/-- A node that produces on request. -/
structure Source where
  pool : BufferPool
  produced : Nat := 0
deriving DecidableEq, Repr

namespace Source

/-- A source with a pool of `buffers` buffers. -/
def ofBuffers (buffers : Nat) : Source := { pool := .ofSize buffers }

/-- Leaves a buffer in the first output. When the pool runs out, the name of
the recycled buffer is gone from the slot. -/
def produce (s : Source) (v : PortView) : Reply Source :=
  match v.output? 0 with
  | none => .unchanged (.error .unlinked) v s
  | some out =>
    if out.hasData then .unchanged (.ok .haveOutput) v s
    else
      match (s.pool.recycle out.buffer).acquire with
      | (none, pool) =>
        { result := .error (.failed "buffer pool exhausted")
          ports := v.setOutput 0 { out with buffer := none }
          state := { s with pool } }
      | (some b, pool) =>
        { result := .ok .haveOutput
          ports := v.setOutput 0 (.provide b)
          state := { pool, produced := s.produced + 1 } }

instance : Processor Source where
  input s v := .unchanged (.error .notSupported) v s
  output := produce
  reuse s _ b := { s with pool := (s.pool.release b).2 }
  name _ := "source"

end Source

end MediaGraph

/-
Buffer pools: the free buffers of a producing node, one bit each.

* `BufferPool`: the number of buffers, at most 64, and the mask of the free
  ones.
* `BufferPool.acquire`: hands out the free buffer with the least name.
* `BufferPool.release`: takes a buffer back, unless it is free already or was
  never part of the pool.
-/
import MediaGraph.Slot

namespace MediaGraph

/-- The largest number of buffers of a pool. -/
def poolLimit : Nat := 64

/-- A pool of `size` buffers; bit `i` of `free` is set when buffer `i` is
free. -/
structure BufferPool where
  size : Nat
  free : BitVec 64
deriving DecidableEq, Repr

namespace BufferPool

/-- A pool of free buffers; the number asked for is brought into the range
from 1 to 64. -/
def ofSize (n : Nat) : BufferPool :=
  let size := max 1 (min n poolLimit)
  { size, free := if size = 64 then .allOnes 64 else (1#64 <<< size) - 1#64 }

/-- The number of free buffers. -/
def available (p : BufferPool) : Nat := p.free.cpop.toNat

/-- Hands out the free buffer with the least name. -/
def acquire (p : BufferPool) : Option BufferId × BufferPool :=
  match (List.range p.size).find? p.free.getLsbD with
  | none => (none, p)
  | some id => (some ⟨id⟩, { p with free := p.free ^^^ (1#64 <<< id) })

/-- Takes back a buffer, and says whether it was one that had been handed
out. -/
def release (p : BufferPool) (b : BufferId) : Bool × BufferPool :=
  if p.size ≤ b.index then (false, p)
  else
    let bit := 1#64 <<< b.index
    if p.free &&& bit ≠ 0#64 then (false, p)
    else (true, { p with free := p.free ||| bit })

/-- Takes back the buffer whose name a consumer left behind, if any. -/
def recycle (p : BufferPool) : Option BufferId → BufferPool
  | some b => (p.release b).2
  | none => p

end BufferPool

end MediaGraph

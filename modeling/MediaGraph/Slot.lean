/-
Slots: the cell through which one link passes readiness and a buffer.

* `Status`: what the two ends of a link tell each other.
* `Slot.provide`, `Slot.request`, `Slot.take`: the moves of the producing and
  of the consuming end.
* `Slot.take_provide`: a provided buffer is taken once and its name stays
  behind for the producer to recycle.
-/

namespace MediaGraph

/-! ### Buffers -/

/-- The name of a buffer within the pool of the node that produced it. -/
@[ext]
structure BufferId where
  index : Nat
deriving DecidableEq, Repr

/-! ### Slots -/

/-- The readiness of a link. -/
inductive Status where
  /-- Nothing was said yet, or all is settled. -/
  | ok
  /-- The producer left a buffer that was not read. -/
  | haveData
  /-- The consumer asked for a buffer. -/
  | needData
  /-- One of the ends gave up. -/
  | error
deriving DecidableEq, Repr

/-- The cell shared by the two ports of a link. -/
@[ext]
structure Slot where
  status : Status := .ok
  buffer : Option BufferId := none
deriving DecidableEq, Repr

namespace Slot

/-- Whether an unread buffer is present. -/
def hasData (s : Slot) : Bool := s.status = .haveData

/-- Whether the consumer waits for a buffer. -/
def needsData (s : Slot) : Bool := s.status = .needData

/-- The producer leaves a buffer. -/
def provide (b : BufferId) : Slot := ⟨.haveData, some b⟩

/-- The consumer asks for a buffer; the name of the last one stays. -/
def request (s : Slot) : Slot := { s with status := .needData }

/-- The consumer reads an unread buffer and asks for the next one. The name
stays in the slot, so that the producer can recycle the buffer. -/
def take (s : Slot) : Option BufferId × Slot :=
  if s.hasData then (s.buffer, s.request) else (none, s)

@[simp] theorem hasData_provide (b : BufferId) : (provide b).hasData = true :=
  rfl

@[simp] theorem hasData_request (s : Slot) : s.request.hasData = false := rfl

@[simp] theorem needsData_request (s : Slot) : s.request.needsData = true :=
  rfl

@[simp] theorem buffer_request (s : Slot) : s.request.buffer = s.buffer := rfl

@[simp] theorem hasData_take (s : Slot) : s.take.2.hasData = false := by
  unfold take
  split <;> simp_all

@[simp] theorem buffer_take (s : Slot) : s.take.2.buffer = s.buffer := by
  unfold take
  split <;> rfl

/-- A provided buffer is read once and its name stays behind. -/
theorem take_provide (b : BufferId) :
    (provide b).take = (some b, ⟨.needData, some b⟩) := rfl

/-- After a read there is nothing left to read. -/
theorem take_take (s : Slot) : s.take.2.take = (none, s.take.2) := by
  unfold take
  split <;> simp_all

end Slot

end MediaGraph

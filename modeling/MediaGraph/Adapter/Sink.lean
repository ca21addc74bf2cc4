/-
Sinks: one input, whose buffers are consumed and counted.

* `Sink`: how many buffers were received, and the last of them.
* `Sink.consume`: reads the input, or asks for data if there is none.
-/
import MediaGraph.Processor

namespace MediaGraph

/-- A node that consumes whatever arrives. -/
structure Sink where
  received : Nat := 0
  last : Option BufferId := none
deriving DecidableEq, Repr

namespace Sink

/-- Reads the first input and asks for the next buffer. -/
def consume (s : Sink) (v : PortView) : Reply Sink :=
  match v.input? 0 with
  | none => .unchanged (.error .unlinked) v s
  | some slot =>
    if slot.hasData then
      { result := .ok .needInput
        ports := v.setInput 0 slot.take.2
        state := { received := s.received + 1, last := slot.take.1 } }
    else
      { result := .ok .needInput
        ports := v.setInput 0 slot.request
        state := s }

/-- Asks for data, even if there is some. -/
def demand (s : Sink) (v : PortView) : Reply Sink :=
  match v.input? 0 with
  | none => .unchanged (.error .unlinked) v s
  | some slot => .unchanged (.ok .needInput) (v.setInput 0 slot.request) s

instance : Processor Sink where
  input := consume
  output := demand
  name _ := "sink"

end Sink

end MediaGraph

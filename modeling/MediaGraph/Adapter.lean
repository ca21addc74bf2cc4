/-
Adapters: the processors that a graph is made of in practice.

* `Adapter τ`: a source, a sink, a mixer, or a processor of the caller's own
  with a state of type `τ`.
-/
import MediaGraph.Adapter.Mixer
import MediaGraph.Adapter.Sink
import MediaGraph.Adapter.Source

namespace MediaGraph

/-- A processor of one of the built-in kinds or of the caller's own kind. -/
inductive Adapter (τ : Type) where
  | source (state : Source)
  | sink (state : Sink)
  | mixer (state : Mixer)
  | custom (state : τ)
deriving DecidableEq, Repr

namespace Adapter

variable {τ : Type}

/-- The reply of a processor seen as that of an adapter. -/
def ofReply {σ : Type} (wrap : σ → Adapter τ) (r : Reply σ) :
    Reply (Adapter τ) :=
  ⟨r.result, r.ports, wrap r.state⟩

instance [Processor τ] : Processor (Adapter τ) where
  input
    | source s, v => ofReply source (Processor.input s v)
    | sink s, v => ofReply sink (Processor.input s v)
    | mixer s, v => ofReply mixer (Processor.input s v)
    | custom s, v => ofReply custom (Processor.input s v)
  output
    | source s, v => ofReply source (Processor.output s v)
    | sink s, v => ofReply sink (Processor.output s v)
    | mixer s, v => ofReply mixer (Processor.output s v)
    | custom s, v => ofReply custom (Processor.output s v)
  reuse
    | source s, i, b => source (Processor.reuse s i b)
    | sink s, i, b => sink (Processor.reuse s i b)
    | mixer s, i, b => mixer (Processor.reuse s i b)
    | custom s, i, b => custom (Processor.reuse s i b)
  name
    | source s => Processor.name s
    | sink s => Processor.name s
    | mixer s => Processor.name s
    | custom s => Processor.name s

/-- The tally of a sink. -/
def sink? : Adapter τ → Option Sink
  | sink s => some s
  | _ => none

end Adapter

/-- There is no processor in the empty type. -/
instance : Processor Empty where
  input s := nomatch s
  output s := nomatch s

end MediaGraph

/-
How far the nodes above a sink get while its demand is served.

* `Network.Above`: the nodes from which a way leads to a sink, where every
  input is linked and required;
* `Stage`: how far one of these nodes got;
* `Stage.Agree`: what is true of a link between nodes at given stages;
* `Network.Demand`: what is true of a flow whose nodes are at given stages.
-/
import Mathlib.Algebra.BigOperators.Group.Finset.Basic
import MediaGraph.Proofs.Stock

namespace MediaGraph

/-! ### The nodes above a sink -/

namespace Network

/-- `T` are the nodes from which a way leads to the sink `K`. All their inputs
are linked and all are required, and no node feeds two inputs. -/
structure Above (N : Network) (K : NodeId) (T : Finset NodeId) : Prop where
  mem : ∀ n, n ∈ T ↔ Relation.ReflTransGen N.Feeds n K
  acyclic : ∀ n, ¬ Relation.TransGen N.Feeds n n
  linked : ∀ n ∈ T, ∀ p ∈ N.inputs n, (N.feeder p).isSome = true
  plain : ∀ n ∈ T, ∀ p ∈ N.inputs n, N.optional p = false
  required : ∀ n ∈ T, N.inputs n ≠ [] → N.required n = (N.inputs n).length
  single : ∀ {c c' p p' x}, p ∈ N.inputs c → p' ∈ N.inputs c' →
    N.feeder p = some x → N.feeder p' = some x → p = p'

namespace Above

variable {N : Network} {K : NodeId} {T : Finset NodeId}

lemma sink_mem (h : N.Above K T) : K ∈ T := (h.mem K).mpr .refl

/-- What feeds a node above the sink is above the sink. -/
lemma mem_of_feeds (h : N.Above K T) {x c : NodeId} (hx : N.Feeds x c)
    (hc : c ∈ T) : x ∈ T :=
  (h.mem x).mpr (.head hx ((h.mem c).mp hc))

/-- A node above the sink feeds another one. -/
lemma exists_feeds (h : N.Above K T) {n : NodeId} (hn : n ∈ T) (hK : n ≠ K) :
    ∃ c ∈ T, N.Feeds n c := by
  obtain rfl | ⟨c, hc, hcK⟩ := ((h.mem n).mp hn).cases_head
  · exact absurd rfl hK
  · exact ⟨c, (h.mem c).mpr hcK, hc⟩

/-- A node above the sink with inputs is required to have some of them. -/
lemma demandsNothing (h : N.Above K T) {n : NodeId} (hn : n ∈ T) :
    N.demandsNothing n = false := by
  rw [Network.demandsNothing]
  rcases hin : N.inputs n with _ | ⟨p, l⟩
  · simp
  · simp [h.required n hn (by simp [hin]), hin]

/-- The sink feeds no node above itself. -/
lemma not_feeds (h : N.Above K T) {c : NodeId} (hc : c ∈ T) :
    ¬ N.Feeds K c := by
  intro hK
  exact h.acyclic K (.trans_left (.single hK) ((h.mem c).mp hc))

end Above

end Network

/-! ### Stages -/

/-- How far a node got in an activation that serves a sink. -/
inductive Stage where
  | untouched
  /-- It waits for its turn to make output. -/
  | asked
  /-- It asked for input and waits for its turn to check who has to be asked. -/
  | checking
  /-- Those that feed its drained inputs were asked. -/
  | waiting
  /-- All its inputs were counted, and it waits for its turn to process them. -/
  | loaded
  /-- It made output, right when it was asked or once its inputs were there,
  and waits for its turn to announce it. -/
  | announcing (direct : Bool)
  /-- It announced its output. -/
  | settled (direct : Bool)
  /-- It is the sink, and processed its input. -/
  | served
deriving DecidableEq

namespace Stage

/-- The phase in which a node waits for its turn. -/
def phase? : Stage → Option Phase
  | asked => some .output
  | checking => some .checkInput
  | loaded => some .input
  | announcing _ => some .checkOutput
  | untouched | waiting | settled _ | served => none

/-- The turns that a node had so far. The sink counts as if it had been asked
by the caller. -/
def turns : Stage → Nat
  | untouched | asked => 0
  | checking | announcing true => 1
  | waiting | loaded | settled true => 2
  | announcing false | served => 3
  | settled false => 4

/-- The calls of a node so far. -/
def sides : Stage → List Side
  | untouched | asked => []
  | checking | waiting | loaded | announcing true | settled true => [.output]
  | announcing false | settled false | served => [.output, .input]

/-- A node asked for input. -/
def isShort (x : Stage) : Prop :=
  x = checking ∨ x = waiting ∨ x = loaded ∨ x = announcing false ∨
    x = settled false

/-- A node was asked and did not make output yet. -/
def isOpen (x : Stage) : Prop :=
  x = asked ∨ x = checking ∨ x = waiting ∨ x = loaded

/-- What is true of a link between a node at stage `c` and the node at stage
`x` that feeds it, where `full` tells whether the link held data at first. -/
inductive Agree (full : Bool) : Stage → Stage → Status → Bool → Prop
  | before {c : Stage} {status : Status} {counted : Bool} :
      c = untouched ∨ c = asked → (status = .haveData ↔ full = true) →
      Agree full c untouched status counted
  | full {c : Stage} {counted : Bool} :
      c = checking ∨ (c = waiting ∧ counted = false) → full = true →
      Agree full c untouched .haveData counted
  | requested {counted : Bool} :
      full = false → Agree full checking untouched .needData counted
  | expected {x : Stage} :
      full = false → x.isOpen → Agree full waiting x .needData false
  | offered {b : Bool} :
      full = false → Agree full waiting (announcing b) .haveData false
  | counted {b : Bool} :
      full = false → Agree full waiting (settled b) .haveData true
  | complete {b counted : Bool} :
      full = false → Agree full loaded (settled b) .haveData counted
  | spared {c : Stage} {counted : Bool} :
      c = announcing true ∨ c = settled true → full = true →
      Agree full c untouched .needData counted
  | consumed {c : Stage} {b counted : Bool} :
      c = announcing false ∨ c = settled false ∨ c = served → full = false →
      Agree full c (settled b) .needData counted

/-- A node in the middle of its stages feeds one that waits for it. -/
lemma Agree.waiting {full counted : Bool} {c x : Stage} {status : Status}
    (h : Agree full c x status counted) (hx : x ≠ .untouched)
    (hsettled : ∀ b, x ≠ .settled b) :
    c = .waiting ∧ full = false ∧ counted = false := by
  cases h with
  | before | full | requested | spared => exact absurd rfl hx
  | counted | complete | consumed => exact absurd rfl (hsettled _)
  | expected hfull => exact ⟨rfl, hfull, rfl⟩
  | offered hfull => exact ⟨rfl, hfull, rfl⟩

/-- A node that did not make output yet may go on to another such stage. -/
lemma Agree.proceed {full counted : Bool} {c x x' : Stage} {status : Status}
    (h : Agree full c x status counted) (hx : x.isOpen) (hx' : x'.isOpen) :
    Agree full c x' status counted := by
  cases h with
  | expected hfull => exact .expected hfull hx'
  | before | full | requested | offered | counted | complete | spared
  | consumed => simp [isOpen] at hx

/-- A node may be asked for output. -/
lemma Agree.ask {full counted : Bool} {x : Stage} {status : Status}
    (h : Agree full untouched x status counted) :
    Agree full asked x status counted := by
  cases h with
  | before _ hfull => exact .before (Or.inr rfl) hfull
  | full hc | spared hc | consumed hc => simp at hc

/-- A node may announce its output. -/
lemma Agree.settle {full counted b : Bool} {x : Stage} {status : Status}
    (h : Agree full (announcing b) x status counted) :
    Agree full (settled b) x status counted := by
  cases h with
  | before hc | full hc => simp at hc
  | spared hc hfull => exact .spared (by simpa using hc) hfull
  | consumed hc hfull => exact .consumed (by simpa using hc) hfull

/-- What a node that made output found in its inputs. -/
lemma Agree.of_settled {full counted : Bool} {c x : Stage} {status : Status}
    (h : Agree full c x status counted) :
    (c = .settled true → full = true) ∧
      (c = .settled false ∨ c = .served →
        full = false ∧ status = .needData ∧ ∃ b, x = .settled b) := by
  cases h with
  | before hc => rcases hc with rfl | rfl <;> simp
  | full hc => rcases hc with rfl | ⟨rfl, -⟩ <;> simp
  | requested | expected | offered | counted | complete => simp
  | spared hc hfull => rcases hc with rfl | rfl <;> simp [hfull]
  | consumed hc hfull => rcases hc with rfl | rfl | rfl <;> simp [hfull]

/-- A node may go on once an input was counted. -/
lemma Agree.load {full counted : Bool} {x : Stage} {status : Status}
    (h : Agree full .waiting x status true) :
    Agree full loaded x status counted := by
  cases h with
  | counted hfull => exact .complete hfull
  | before hc | full hc | spared hc | consumed hc => simp at hc

end Stage

/-! ### Flows -/

namespace Network

variable {τ : Type}

/-- What is true of a flow that serves the sink `K` from the flow `s` on, when
the nodes are at given stages. -/
structure Demand (N : Network) (K : NodeId) (T : Finset NodeId)
    (s : Flow (Adapter τ)) (stage : NodeId → Stage) (t : Flow (Adapter τ)) :
    Prop where
  outside : ∀ n ∉ T, stage n = .untouched
  sink : stage K = .checking ∨ stage K = .waiting ∨ stage K = .loaded ∨
    stage K = .served
  served : ∀ n, stage n = .served → n = K
  queued : ∀ n, t.queued n = (stage n).phase?.isSome
  phase : ∀ n φ, (stage n).phase? = some φ → t.phase n = φ
  link : ∀ {c p x}, c ∈ T → p ∈ N.inputs c → N.feeder p = some x →
    Stage.Agree (s.full p) (stage c) (stage x) (t.slot p).status (t.counted p)
  ready : ∀ c ∈ T, stage c = .waiting →
    t.ready c = (N.inputs c).countP t.counted
  pending : ∀ c ∈ T, stage c = .waiting → ∃ p ∈ N.inputs c, t.counted p = false
  short : ∀ c ∈ T, c ≠ K → (stage c).isShort →
    ∃ p ∈ N.inputs c, s.full p = false
  frame : ∀ c ∉ T, ∀ p ∈ N.inputs c, t.slot p = s.slot p
  tally : ∃ snk₀ snk, s.processor K = some (.sink snk₀) ∧
    t.processor K = some (.sink snk) ∧
    snk.received = snk₀.received + if stage K = .served then 1 else 0

end Network

end MediaGraph

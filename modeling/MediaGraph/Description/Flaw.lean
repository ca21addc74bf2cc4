/-
What can be wrong with a description.

* `SettingFlaw`: a setting of a node that does not fit its kind or its ports.
* `StepFlaw`: an activation that cannot be performed on its node.
* `Flaw`: one problem.
* `Flaws`: all the problems of a description, at least one.
-/
import MediaGraph.Adapter.Pool
import MediaGraph.Description.Basic

namespace MediaGraph

/-- A setting of a node that does not fit. -/
inductive SettingFlaw where
  | inputsOf (kind : NodeKind)
  | mixerWithoutInputs
  | buffersOfSink
  | buffersOutOfRange (buffers : Nat)
  | noSuchOptional (index inputs : Nat)
  | allOptional
  | requiredWithoutInputs
  | requiredOutOfRange (required inputs : Nat)
deriving DecidableEq, Repr

/-- The text of a setting that does not fit. -/
def SettingFlaw.message : SettingFlaw → String
  | inputsOf kind => s!"'inputs' is only valid for mixers, not a {kind.text}"
  | mixerWithoutInputs => "a mixer needs at least one input"
  | buffersOfSink => "'buffers' is not valid for sinks"
  | buffersOutOfRange n =>
    s!"'buffers' must be between 1 and {poolLimit}, got {n}"
  | noSuchOptional i n =>
    s!"optional input {i} does not exist (node has {n} inputs)"
  | allOptional => "every input is optional, so 'required_in' must be set"
  | requiredWithoutInputs => "'required_in' set on a node without inputs"
  | requiredOutOfRange k n =>
    s!"'required_in' must be between 1 and {n}, got {k}"

/-- An activation that cannot be performed. -/
inductive StepFlaw where
  | pullOfSource
  | pushOfSink
  /-- Demand from downstream would ask the node to produce again, and the
  built-in kinds always answer. -/
  | pushOfAsync
  | never
deriving DecidableEq, Repr

/-- The text of an activation that cannot be performed. -/
def StepFlaw.message : StepFlaw → String
  | pullOfSource => "a source has no inputs to pull"
  | pushOfSink => "a sink has no outputs to push"
  | pushOfAsync => "an async node is asked to produce again and never settles"
  | never => "repeat must be at least 1"

/-- The word for a direction. -/
def Direction.text : Direction → String
  | .input => "input"
  | .output => "output"

/-- One problem of a description. -/
inductive Flaw where
  | emptyName (index : Nat)
  | duplicateNode (name : String)
  | unknownNode (name : String)
  | invalidPortRef (reference : String)
  | portOutOfRange (node : String) (direction : Direction) (index count : Nat)
  | portAlreadyLinked (reference : String)
  | selfLink (link : LinkSpec)
  | cycle (link : LinkSpec)
  | invalidNode (node : String) (reason : SettingFlaw)
  | invalidStep (mode : Mode) (node : String) (reason : StepFlaw)
deriving DecidableEq, Repr

/-- The text of a problem. -/
def Flaw.message : Flaw → String
  | emptyName i => s!"node #{i} has an empty name"
  | duplicateNode name => s!"duplicate node name: {name}"
  | unknownNode name => s!"unknown node: {name}"
  | invalidPortRef r => s!"invalid port reference: '{r}'"
  | portOutOfRange node d i n =>
    s!"node '{node}' has no {d.text} port {i} (it has {n})"
  | portAlreadyLinked r => s!"port '{r}' is linked more than once"
  | selfLink l =>
    s!"link '{l.source}' -> '{l.target}' connects a node to itself"
  | cycle l => s!"link '{l.source}' -> '{l.target}' creates a cycle"
  | invalidNode node reason =>
    s!"invalid setting for node '{node}': {reason.message}"
  | invalidStep mode node reason =>
    s!"cannot {mode.text} node '{node}': {reason.message}"

/-- The problems of a description, in the order in which they were found. -/
structure Flaws where
  first : Flaw
  others : List Flaw := []
deriving DecidableEq, Repr

namespace Flaws

/-- All the problems. -/
def toList (f : Flaws) : List Flaw := f.first :: f.others

/-- The text of the problems: that of the only one, or all of them. -/
def message (f : Flaws) : String :=
  match f.others with
  | [] => f.first.message
  | _ => "multiple validation errors: " ++
    "; ".intercalate (f.toList.map Flaw.message)

end Flaws

end MediaGraph

/-
Checking descriptions.

Everything that can be decided from the description alone is checked, and
every problem is reported: names, settings, references, that no port is linked
twice, that no link closes a cycle unless cycles are allowed, and that every
step of the script can be performed.

* `Description.indexOf?`: the node that a name stands for.
* `Description.resolve`: the port that a reference stands for.
* `Wiring`: the links accepted so far; `Wiring.connect` adds one.
* `Description.flaws`: all problems, in order.
* `Description.validate`: the same as a verdict.
-/
import MediaGraph.Description.Flaw
import MediaGraph.Reachability

namespace MediaGraph

/-! ### Names -/

/-- A name without any character that is not a blank. -/
def isBlankName (name : String) : Bool := name.toList.all Text.isBlank

namespace Description

/-- The place of the node that a name stands for: the first of that name. A
blank name stands for no node. -/
def indexOf? (d : Description) (name : String) : Option Nat :=
  if isBlankName name then none else d.nodes.findIdx? (·.name = name)

/-- Problems with the name of the node at place `i`. -/
def nameFlaws (d : Description) (i : Nat) (n : NodeSpec) : List Flaw :=
  if isBlankName n.name then [.emptyName i]
  else if (d.nodes.take i).any (·.name = n.name) then [.duplicateNode n.name]
  else []

end Description

/-! ### Settings -/

/-- Whether a property holds of every number from `i` on below `n`; the
numbers are tried in order and the first failure decides. -/
def allBelow (p : Nat → Bool) (i n : Nat) : Bool :=
  if i < n then p i && allBelow p (i + 1) n else true
termination_by n - i

namespace NodeSpec

/-- The problems with `inputs`. -/
def inputFlaws (n : NodeSpec) : List SettingFlaw :=
  (if n.inputs.isSome ∧ n.kind ≠ .mixer then [.inputsOf n.kind] else []) ++
    if n.kind = .mixer ∧ n.inputCount = 0 then [.mixerWithoutInputs] else []

/-- The problems with `buffers`. -/
def bufferFlaws (n : NodeSpec) : List SettingFlaw :=
  match n.buffers with
  | none => []
  | some b =>
    if n.kind = .sink then [.buffersOfSink]
    else if b = 0 ∨ poolLimit < b then [.buffersOutOfRange b]
    else []

/-- The problems with the optional inputs. -/
def optionalFlaws (n : NodeSpec) : List SettingFlaw :=
  (n.optionalInputs.filter (n.inputCount ≤ ·)).map
    (.noSuchOptional · n.inputCount)

/-- The problems with the number of required inputs. -/
def requiredFlaws (n : NodeSpec) : List SettingFlaw :=
  match n.requiredIn with
  | none =>
    if 0 < n.inputCount ∧ allBelow n.isOptional 0 n.inputCount then
      [.allOptional]
    else []
  | some k =>
    if n.inputCount = 0 then [.requiredWithoutInputs]
    else if k = 0 ∨ n.inputCount < k then [.requiredOutOfRange k n.inputCount]
    else []

/-- All problems with the settings of a node. -/
def settingFlaws (n : NodeSpec) : List SettingFlaw :=
  n.inputFlaws ++ n.bufferFlaws ++ n.optionalFlaws ++ n.requiredFlaws

end NodeSpec

/-! ### Links -/

/-- A port of a description: the place of its node and its own place. -/
structure PortPlace where
  node : Nat
  index : Nat
deriving DecidableEq, Repr

/-- The port that a reference stands for. -/
def Description.resolve (d : Description) (direction : Direction)
    (reference : String) : Except Flaw PortPlace :=
  match PortRef.parse? reference with
  | none => .error (.invalidPortRef reference)
  | some r =>
    match d.indexOf? r.node with
    | none => .error (.unknownNode r.node)
    | some i =>
      match d.nodes[i]? with
      | none => .error (.unknownNode r.node)
      | some n =>
        if r.index < n.portCount direction then .ok ⟨i, r.index⟩
        else .error (.portOutOfRange n.name direction r.index
          (n.portCount direction))

/-- The ports that links have named so far, and for every node the nodes that
its accepted links lead to. -/
structure Wiring where
  outputs : List PortPlace := []
  inputs : List PortPlace := []
  successors : Array (List Nat)

namespace Wiring

/-- Nothing is linked yet. -/
def start (nodes : Nat) : Wiring := { successors := .replicate nodes [] }

/-- The nodes that the links of a node lead to. -/
def after (w : Wiring) (n : Nat) : List Nat := w.successors[n]?.getD []

/-- Whether data can flow from one node to another. -/
def reaches (w : Wiring) (a b : Nat) : Bool :=
  Reachability.reaches w.after w.successors.size a b

/-- Adds a link between two ports. A link that is refused still uses up the
ports that it was the first to name. -/
def connect (allowCycles : Bool) (l : LinkSpec) (source target : PortPlace)
    (w : Wiring) : Option Flaw × Wiring :=
  if source ∈ w.outputs then (some (.portAlreadyLinked l.source), w)
  else
    let w := { w with outputs := source :: w.outputs }
    if target ∈ w.inputs then (some (.portAlreadyLinked l.target), w)
    else
      let w := { w with inputs := target :: w.inputs }
      if source.node = target.node then (some (.selfLink l), w)
      else if !allowCycles && w.reaches target.node source.node then
        (some (.cycle l), w)
      else
        (none, { w with successors :=
          w.successors.modify source.node (target.node :: ·) })

end Wiring

namespace Description

/-- Checks one link against those before it. -/
def checkLink (d : Description) (l : LinkSpec) (w : Wiring) :
    Option Flaw × Wiring :=
  match d.resolve .output l.source with
  | .error flaw => (some flaw, w)
  | .ok source =>
    match d.resolve .input l.target with
    | .error flaw => (some flaw, w)
    | .ok target => w.connect d.allowCycles l source target

/-- The problems with links, each checked against those before it. -/
def linkFlaws (d : Description) : List LinkSpec → Wiring → List Flaw
  | [], _ => []
  | l :: rest, w =>
    (d.checkLink l w).1.toList ++ d.linkFlaws rest (d.checkLink l w).2

/-! ### Script -/

/-- Why a step cannot be performed on a node. -/
def stepFlaw? (step : StepSpec) (n : NodeSpec) : Option StepFlaw :=
  match step.mode, n.kind with
  | .pull, .source => some .pullOfSource
  | .push, .sink => some .pushOfSink
  | mode, _ =>
    if mode = .push ∧ n.async then some .pushOfAsync
    else if step.times = 0 then some .never
    else none

/-- The problem with a step of the script, if there is one. -/
def checkStep (d : Description) (step : StepSpec) : Option Flaw :=
  match (d.indexOf? step.node).bind (d.nodes[·]?) with
  | none => some (.unknownNode step.node)
  | some n => (stepFlaw? step n).map (.invalidStep step.mode step.node)

/-! ### The whole description -/

/-- The problems with the nodes. -/
def nodeFlaws (d : Description) : List Flaw :=
  d.nodes.zipIdx.flatMap fun (n, i) =>
    d.nameFlaws i n ++ n.settingFlaws.map (.invalidNode n.name)

/-- All problems of a description, in order. -/
def flaws (d : Description) : List Flaw :=
  d.nodeFlaws ++ d.linkFlaws d.links (.start d.nodes.length) ++
    d.script.filterMap d.checkStep

/-- Accepts a description without problems. -/
def validate (d : Description) : Except Flaws Unit :=
  match d.flaws with
  | [] => .ok ()
  | first :: others => .error { first, others }

end Description

end MediaGraph

/-
What the commands do.

* `CommandError`: why a command fails, with its text and its causes.
* `Response`: the exit code and the two output streams.
* `loadGraph`: the description that an argument stands for; the name of a
  bundled graph wins over a file.
* `verdict`, `checkGraphs`: whether graphs are good, and how large they are.
* `runGraph`, `validateGraphs`, `inspectGraph`, `printGraph`: the commands.
* `respond`: the response to the arguments of the command line.
-/
import MediaGraph.CommandLine.Arguments
import MediaGraph.CommandLine.Report
import MediaGraph.Description.Catalogue
import MediaGraph.Description.File

namespace MediaGraph.CommandLine

open Text (padRight)

/-! ### Failures -/

/-- Why a command fails. -/
inductive CommandError where
  /-- No bundled graph and no file has this name. -/
  | noGraph (name : String)
  /-- The description cannot be had. -/
  | unreadable (cause : ConfigError)
  /-- The description cannot be built. -/
  | unbuildable (cause : BuildError)
  | noActivations (name : String)
  /-- The number of activations does not fit into 64 bits. -/
  | tooManyActivations
  /-- One of the activations of a run failed, counted over all rounds. -/
  | activation (number : Nat) (cause : ActivationError)
  /-- No bundled graph has this name. -/
  | notBundled (name : String)
  | notSaved (cause : ConfigError)
  /-- Some of the checked graphs have flaws. -/
  | flawed (count total : Nat)
deriving DecidableEq, Repr

/-- Lines as a text. -/
def unlines (lines : List String) : String :=
  String.join (lines.map (· ++ "\n"))

namespace CommandError

/-- The text of a failure. -/
def message : CommandError → String
  | noGraph name => s!"Graph '{name}' not found. " ++
    "Use 'ripple graphs' to see the factory graphs."
  | unreadable cause => cause.message
  | unbuildable cause => cause.message
  | noActivations name => s!"Graph '{name}' has no activations to run"
  | tooManyActivations => "too many activations"
  | activation number _ => s!"activation {number} failed"
  | notBundled name => s!"Factory graph '{name}' not found. " ++
    "Use 'ripple graphs' to list them."
  | notSaved cause => cause.message
  | flawed count total => s!"{count} of {total} graph(s) failed validation"

/-- The texts of what caused a failure, the nearest cause first. -/
def causes : CommandError → List String
  | unbuildable cause => (ConfigError.build cause).cause?.toList
  | activation _ (.processFailed n cause) =>
    [(ActivationError.processFailed n cause).message, cause.message]
  | activation _ cause => [cause.message]
  | notSaved cause => cause.cause?.toList
  | _ => []

/-- Text whose first line starts with `first` and the others with `others`. -/
def indented (first others : String) (text : String) : String :=
  first ++ ("\n" ++ others).intercalate (text.splitOn "\n")

/-- The causes, one to a line; several are numbered. -/
def causeLines : List String → List String
  | [text] => [indented "    " "    " text]
  | texts => texts.zipIdx.map fun (text, i) =>
    indented (Text.padLeft 5 (toString i) ++ ": ") "       " text

/-- The report on a failure. -/
def report (e : CommandError) : String :=
  s!"Error: {e.message}\n" ++
    if e.causes.isEmpty then ""
    else "\nCaused by:\n" ++ unlines (causeLines e.causes)

/-- The exit code of a program that was aborted. -/
def aborted : Nat := 134

/-- The exit code of a failure. A number that outgrows its width, and a node
that is misconfigured, abort the program. -/
def exitCode : CommandError → Nat
  | tooManyActivations => aborted
  | activation _ (.nothingRequired _) => aborted
  | activation _ .tooManyTurns => aborted
  | _ => 1

end CommandError

/-- What a command prints, and whether it fails. -/
structure Outcome where
  output : String := ""
  failure : Option CommandError := none

/-- The exit code and the texts of the two output streams. -/
structure Response where
  code : Nat
  output : String
  errors : String
deriving DecidableEq, Repr

/-- The response to a command. -/
def Outcome.response (o : Outcome) : Response where
  code := o.failure.elim 0 (·.exitCode)
  output := o.output
  errors := o.failure.elim "" (·.report)

/-! ### Graphs by argument -/

section

variable {m : Type → Type} [Monad m] [FileSystem m]

/-- The description that an argument stands for: that of a bundled graph, or
else that in a file. -/
def loadGraph (name : String) : m (Except CommandError Description) := do
  match Catalogue.find? name with
  | some d => pure (.ok d)
  | none =>
    if ← FileSystem.pathExists name then
      match ← Description.load name with
      | .ok d => pure (.ok d)
      | .error e => pure (.error (.unreadable e))
    else pure (.error (.noGraph name))

/-- The assembly of a description, without nodes of the caller's own. -/
def assemble (d : Description) : Except CommandError (Assembly Empty) :=
  match Assembly.build d with
  | .ok a => .ok a
  | .error e => .error (.unbuildable e)

/-- The description that an argument stands for, and its assembly. -/
def loadAssembly (name : String) :
    m (Except CommandError (Description × Assembly Empty)) := do
  match ← loadGraph name with
  | .error e => pure (.error e)
  | .ok d =>
    match assemble d with
    | .error e => pure (.error e)
    | .ok a => pure (.ok (d, a))

/-! ### Running -/

/-- Rounds of a script: the assembly, the position over all rounds, and the
error that stopped them. -/
structure Rounds where
  assembly : Assembly Empty
  position : Nat := 0
  failure : Option ActivationError := none

/-- Runs the script round after round, until an activation fails. `base`
activations were completed before. -/
def runRounds : Nat → Nat → Rounds → Rounds
  | 0, _, r => r
  | k + 1, base, r =>
    let run := r.assembly.runScript (fun _ done => base + done) r.position
    let r := { r with
      assembly := run.assembly
      position := run.progress
      failure := run.failure }
    if r.failure.isSome then r
    else runRounds k (base + r.assembly.total) r

/-- The lines before a run. -/
def runHeader (d : Description) (a : Assembly Empty) : List String :=
  [s!"Running graph: {a.name}"] ++
  (d.summary.map ("  " ++ ·)).toList ++
  a.script.map GraphReport.stepLine

/-- The bound of 64-bit numbers, `2 ^ 64`. -/
def bound64 : Nat := 18446744073709551616

/-- Runs the script of an assembly a number of times. -/
def runAssembly (d : Description) (a : Assembly Empty) (rounds : Nat) :
    Outcome :=
  if a.total = 0 then { failure := some (.noActivations a.name) }
  else if bound64 ≤ a.total * rounds then
    { failure := some .tooManyActivations }
  else
    let r := runRounds rounds 0 { assembly := a }
    match r.failure with
    | some e =>
      { output := unlines (runHeader d a)
        failure := some (.activation (r.position + 1) e) }
    | none =>
      { output := unlines (runHeader d a ++
          ["", s!"Completed {a.total * rounds} activation(s)"] ++
          summaryLines r.assembly) }

/-- Runs the script of a graph a number of times. -/
def runGraph (name : String) (rounds : Nat) : m Outcome := do
  match ← loadAssembly name with
  | .error e => pure { failure := some e }
  | .ok (d, a) => pure (runAssembly d a rounds)

/-! ### Checking -/

/-- The lines on a graph that was checked, and whether it is good. The
activations of a good graph are counted, which fails if they are too many. -/
def verdict (name : String) : Except CommandError Description →
    Except CommandError (Bool × List String)
  | .error e => .ok (false, [s!"FAIL  {name}: {e.message}"])
  | .ok d =>
    match d.validate with
    | .ok () =>
      if bound64 ≤ d.total then .error .tooManyActivations
      else .ok (true, [s!"OK    {name} ({d.nodes.length} nodes, " ++
        s!"{d.links.length} links, {d.total} activations)"])
    | .error flaws =>
      match flaws.others with
      | [] => .ok (false, [s!"FAIL  {name}: {flaws.first.message}"])
      | _ => .ok (false, s!"FAIL  {name}: {flaws.toList.length} errors" ::
          flaws.toList.map fun flaw => s!"        - {flaw.message}")

/-- Checks graphs one after the other, until one cannot be told. -/
def checkGraphs : List String → m (List (Bool × List String) × Option CommandError)
  | [] => pure ([], none)
  | name :: rest => do
    match verdict name (← loadGraph name) with
    | .error e => pure ([], some e)
    | .ok v =>
      let (vs, failure) ← checkGraphs rest
      pure (v :: vs, failure)

/-- Checks graphs, and fails if some of them have flaws. -/
def validateGraphs (names : List String) : m Outcome := do
  let (verdicts, failure) ← checkGraphs names
  let failed := verdicts.countP fun v => !v.1
  pure {
    output := unlines (verdicts.flatMap (·.2))
    failure := failure <|> if failed = 0 then none
      else some (.flawed failed names.length) }

/-! ### Showing -/

/-- Shows the nodes, the links and the script of a graph. -/
def inspectGraph (name : String) (json : Bool) : m Outcome := do
  match ← loadAssembly name with
  | .error e => pure { failure := some e }
  | .ok (d, a) =>
    let report := GraphReport.of d a
    let lines := if json then [report.json.text] else report.lines
    pure { output := unlines lines }

/-- Lists the bundled graphs. -/
def listGraphs : Outcome where
  output := unlines (["Factory Graphs:", "==============="] ++
    Catalogue.all.map (fun d =>
      "  " ++ padRight 14 d.name ++ " - " ++ d.summary.getD "") ++
    ["", "Run one with: ripple run <name>"])

/-- Prints a bundled graph, or writes it to a file. -/
def printGraph (name : String) (path : Option String) : m Outcome := do
  match Catalogue.find? name, path with
  | none, _ => pure { failure := some (.notBundled name) }
  | some d, none =>
    pure { output := d.toToml }
  | some d, some path =>
    match ← d.save path with
    | .ok () => pure { output := unlines [s!"Saved '{d.name}' to {path}"] }
    | .error e => pure { failure := some (.notSaved e) }

/-! ### All together -/

/-- What a command prints, and whether it fails. -/
def perform : Command → m Outcome
  | .run name rounds => runGraph name rounds
  | .validate names => validateGraphs names
  | .inspect name json => inspectGraph name json
  | .list => pure listGraphs
  | .print name path => printGraph name path
  | .version => pure { output := unlines ["ripple 0.1.0"] }
  | .help => pure { output := unlines ["Usage: ripple [OPTIONS] <COMMAND>"] }

/-- The response to the arguments of the command line. Arguments that are not
understood have the exit code 2. -/
def respond (args : List String) : m Response := do
  match Command.ofArguments? args with
  | none => pure ⟨2, "", "error: invalid arguments\n"⟩
  | some c => pure (← perform c).response

end

end MediaGraph.CommandLine

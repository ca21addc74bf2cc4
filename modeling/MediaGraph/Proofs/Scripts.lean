/-
Running a script is performing its activations.

* `Graph.performAll`: activations one after the other, until one fails;
* `Assembly.activations`: those of a script, every step as often as it says;
* `ScriptRun.Performs`: what a run of a script does beyond performing activations: it
  counts the completed ones, and reports each of them;
* `Assembly.performs_runScript`: a run of the whole script does just that;
* `CommandLine.runRounds_eq`: rounds of a script perform its activations round after
  round on one graph, and the position is the number of completed ones;
* `CommandLine.AnswersRun`: what the program says of that;
* `CommandLine.script_performed`: both together, and what the program prints.
-/
import Mathlib.Data.List.Range
import MediaGraph.Proofs.Loading

namespace MediaGraph

/-! ### Activations one after the other -/

/-- What is left when activations were performed one after the other until one
failed. -/
structure Performance (σ : Type) where
  graph : Graph σ
  /-- How many of them completed. -/
  completed : Nat := 0
  failure : Option ActivationError := none
  /-- The calls that were made, in order. -/
  callbacks : List Callback := []

namespace Graph

variable {σ : Type} [Processor σ]

/-- Activates a node in one of the two ways. -/
def enter (g : Graph σ) : Mode → NodeId → Activation σ
  | .pull, n => g.pull n
  | .push, n => g.push n

/-- Performs activations one after the other, until one fails. -/
def performAll : List (Mode × NodeId) → Graph σ → Performance σ
  | [], g => { graph := g }
  | (mode, n) :: rest, g =>
    let a := g.enter mode n
    match a.result with
    | .error e => { graph := a.graph, failure := some e, callbacks := a.callbacks }
    | .ok () =>
      let p := performAll rest a.graph
      { p with
        completed := p.completed + 1
        callbacks := a.callbacks ++ p.callbacks }

/-- If none fails then all are completed. -/
lemma completed_performAll {activations : List (Mode × NodeId)} {g : Graph σ}
    (h : (performAll activations g).failure = none) :
    (performAll activations g).completed = activations.length := by
  induction activations generalizing g with
  | nil => rfl
  | cons x rest ih =>
      obtain ⟨mode, n⟩ := x
      rcases ha : (g.enter mode n).result with e | ⟨⟩
      · simp [performAll, ha] at h
      · simp only [performAll, ha] at h ⊢
        rw [ih h, List.length_cons]

end Graph

/-- Another performance goes on from where one ended, unless that failed. -/
def Performance.andThen {σ : Type} (p : Performance σ) (next : Graph σ → Performance σ) :
    Performance σ :=
  match p.failure with
  | some _ => p
  | none =>
    let q := next p.graph
    { q with
      completed := p.completed + q.completed
      callbacks := p.callbacks ++ q.callbacks }

lemma Graph.performAll_append {σ : Type} [Processor σ] (first second : List (Mode × NodeId))
    (g : Graph σ) :
    performAll (first ++ second) g = (performAll first g).andThen (performAll second) := by
  induction first generalizing g with
  | nil => simp [performAll, Performance.andThen]
  | cons x first ih =>
      obtain ⟨mode, n⟩ := x
      rcases ha : (g.enter mode n).result with e | ⟨⟩
      · simp [performAll, ha, Performance.andThen]
      · simp only [List.cons_append, performAll, ha, ih]
        rcases hp : (performAll first (g.enter mode n).graph).failure with _ | e <;>
          simp [Performance.andThen, hp, Nat.add_right_comm]

namespace Assembly

variable {τ β : Type}

/-! ### The activations of a script -/

/-- The activations of the script, every step as often as it says. -/
def activations (a : Assembly τ) : List (Mode × NodeId) :=
  a.script.flatMap fun s => List.replicate s.times (s.mode, s.node)

lemma length_activations (a : Assembly τ) : a.activations.length = a.total := by
  rw [activations, total]
  induction a.script with
  | nil => rfl
  | cons s rest ih => simp [ih]

namespace ScriptRun

variable {report : β → Nat → β} {r r' r'' : ScriptRun τ β} {p : Performance (Adapter τ)}

/-- From `r` to `r'` a script performed activations: it changed the graph of the
assembly as they do, counted the completed ones, and reported each of them. -/
structure Performs (report : β → Nat → β) (r r' : ScriptRun τ β)
    (p : Performance (Adapter τ)) : Prop where
  assembly : r'.assembly = { r.assembly with graph := p.graph }
  done : r'.done = r.done + p.completed
  progress : r'.progress =
    (List.range' (r.done + 1) p.completed).foldl report r.progress
  calls : r'.calls = p.callbacks.reverse ++ r.calls
  failure : r'.failure = p.failure

namespace Performs

/-- Nothing is done if there is nothing to do. -/
lemma refl (h : r.failure = none) :
    r.Performs report r { graph := r.assembly.graph } where
  assembly := rfl
  done := rfl
  progress := rfl
  calls := rfl
  failure := h

/-- A script that goes on unless it failed performs one after the other. -/
lemma andThen {next : Graph (Adapter τ) → Performance (Adapter τ)}
    (h : r.Performs report r' p)
    (hnext : r'.failure = none → r'.Performs report r'' (next r'.assembly.graph))
    (hsame : r'.failure ≠ none → r'' = r') : r.Performs report r'' (p.andThen next) := by
  rcases hp : p.failure with _ | e
  · have hgraph : r'.assembly.graph = p.graph := by rw [h.assembly]
    have h' := hnext (h.failure.trans hp)
    rw [hgraph] at h'
    simp only [Performance.andThen, hp]
    constructor
    · rw [h'.assembly, h.assembly]
    · rw [h'.done, h.done, Nat.add_assoc]
    · rw [h'.progress, h.progress, h.done, ← List.foldl_append, Nat.add_right_comm,
        List.range'_append_1]
    · rw [h'.calls, h.calls, List.reverse_append, List.append_assoc]
    · exact h'.failure
  · obtain rfl := hsame (by rw [h.failure, hp]; exact nofun)
    simpa only [Performance.andThen, hp] using h

end Performs

variable [Processor τ]

/-- One activation. -/
lemma performs_advance (report : β → Nat → β) (mode : Mode) (n : NodeId)
    (h : r.failure = none) :
    r.Performs report (r.advance report mode n)
      (Graph.performAll [(mode, n)] r.assembly.graph) := by
  have henter : r.assembly.activate mode n = r.assembly.graph.enter mode n := by
    cases mode <;> rfl
  rcases ha : (r.assembly.graph.enter mode n).result with e | ⟨⟩
  · constructor <;> simp [advance, henter, ha, Graph.performAll]
  · constructor <;> simp [advance, henter, ha, Graph.performAll, h, List.range'_succ]

/-- The same activation a number of times. -/
lemma performs_advanceTimes (report : β → Nat → β) (mode : Mode) (n : NodeId) (k : Nat)
    (h : r.failure = none) :
    r.Performs report (advanceTimes report mode n k r)
      (Graph.performAll (List.replicate k (mode, n)) r.assembly.graph) := by
  induction k generalizing r with
  | zero => exact .refl h
  | succ k ih =>
      rw [List.replicate_succ, ← List.singleton_append, Graph.performAll_append]
      refine (performs_advance report mode n h).andThen (fun hr => ?_) fun hr => ?_
      · simpa [advanceTimes, hr] using ih hr
      · simp [advanceTimes, Option.isSome_iff_ne_none.mpr hr]

/-- Step after step. -/
lemma performs_advanceAll (report : β → Nat → β) (steps : List Step) (h : r.failure = none) :
    r.Performs report (advanceAll report steps r)
      (Graph.performAll (steps.flatMap fun s => List.replicate s.times (s.mode, s.node))
        r.assembly.graph) := by
  induction steps generalizing r with
  | nil => exact .refl h
  | cons s rest ih =>
      rw [List.flatMap_cons, Graph.performAll_append]
      refine (performs_advanceTimes report s.mode s.node s.times h).andThen
        (fun hr => ?_) fun hr => ?_
      · simpa [advanceAll, hr] using ih hr
      · simp [advanceAll, Option.isSome_iff_ne_none.mpr hr]

end ScriptRun

/-- Running the script performs its activations. -/
lemma performs_runScript [Processor τ] (a : Assembly τ) (report : β → Nat → β) (progress : β) :
    ({ assembly := a, progress } : ScriptRun τ β).Performs report (a.runScript report progress)
      (Graph.performAll a.activations a.graph) :=
  ScriptRun.performs_advanceAll report a.script rfl

end Assembly

namespace CommandLine

/-! ### Rounds -/

/-- The activations of so many rounds of a script. -/
def rounds (a : Assembly Empty) (k : Nat) : List (Mode × NodeId) :=
  (List.replicate k a.activations).flatten

lemma length_rounds (a : Assembly Empty) (k : Nat) : (rounds a k).length = a.total * k := by
  simp [rounds, a.length_activations, Nat.mul_comm]

/-- Rounds of the script of an assembly, performed on its graph. -/
def performed (a : Assembly Empty) (k : Nat) : Performance (Adapter Empty) :=
  Graph.performAll (rounds a k) a.graph

/-- Whoever keeps the latest report knows how many there were. -/
lemma foldl_position (base k : Nat) :
    (List.range' 1 k).foldl (fun _ done => base + done) base = base + k := by
  cases k with
  | zero => rfl
  | succ k => simp [List.range'_1_concat, Nat.add_comm 1]

/-- Rounds of a script perform its activations round after round on one graph. The
position is the number of those that completed over all rounds. -/
lemma runRounds_eq (a : Assembly Empty) (k base : Nat) :
    runRounds k base { assembly := a, position := base } =
      { assembly := { a with graph := (performed a k).graph }
        position := base + (performed a k).completed
        failure := (performed a k).failure } := by
  induction k generalizing a base with
  | zero => rfl
  | succ k ih =>
      have hrun := a.performs_runScript (fun _ done => base + done) base
      have hposition := hrun.progress.trans (foldl_position base _)
      have hrounds : rounds a (k + 1) = a.activations ++ rounds a k := by
        rw [rounds, List.replicate_succ, List.flatten_cons, rounds]
      rw [performed, hrounds, Graph.performAll_append, runRounds, hrun.assembly, hposition,
        hrun.failure]
      rcases hp : (Graph.performAll a.activations a.graph).failure with _ | e
      · -- the next round starts where this one ended
        have hcompleted := Graph.completed_performAll hp
        rw [a.length_activations] at hcompleted
        have hnext := ih { a with graph := (Graph.performAll a.activations a.graph).graph }
          (base + a.total)
        simp only [Performance.andThen, hp, hcompleted, ← Nat.add_assoc]
        exact hnext
      · simp [Performance.andThen, hp]

/-! ### What the program says -/

/-- A run says how many activations its rounds performed, or which one failed. -/
structure AnswersRun (d : Description) (a : Assembly Empty) (k : Nat) (r : Response) :
    Prop where
  /-- Nothing is performed if there is nothing to perform, or more than can be
  counted. -/
  refused : a.total = 0 ∨ bound64 ≤ a.total * k → r.code ≠ 0 ∧ r.output = ""
  completed : a.total ≠ 0 → a.total * k < bound64 →
    (performed a k).failure = none →
    (performed a k).completed = a.total * k ∧
    r = ⟨0, unlines (runHeader d a ++ ["", s!"Completed {a.total * k} activation(s)"] ++
      summaryLines { a with graph := (performed a k).graph }), ""⟩
  /-- A program that is aborted does not get to say more. -/
  failed : ∀ e, a.total ≠ 0 → a.total * k < bound64 →
    (performed a k).failure = some e →
    r.output = unlines (runHeader d a) ∧
    r.code = (CommandError.activation ((performed a k).completed + 1) e).exitCode ∧
    (r.code ≠ CommandError.aborted → ∃ causes, r.errors =
      s!"Error: activation {(performed a k).completed + 1} failed\n" ++ causes)

/-- The report on a failed activation tells its number. -/
lemma CommandError.exists_report_activation (number : Nat) (cause : ActivationError) :
    ∃ causes, (activation number cause).report =
      s!"Error: activation {number} failed\n" ++ causes := by
  have hmessage : (activation number cause).message = s!"activation {number} failed" := rfl
  have herror : "Error: " ++ "activation " = "Error: activation " := rfl
  have hfailed : " failed" ++ "\n" = " failed\n" := rfl
  refine ⟨if (activation number cause).causes.isEmpty then "" else
    "\nCaused by:\n" ++ unlines (causeLines (activation number cause).causes), ?_⟩
  simp only [report, hmessage, toString, ← herror, ← hfailed, String.append_assoc]

/-- Running a script a number of times, it says so. -/
lemma answersRun_runAssembly (d : Description) (a : Assembly Empty) (k : Nat) :
    AnswersRun d a k (runAssembly d a k).response := by
  have hrounds := runRounds_eq a k 0
  rw [Nat.zero_add] at hrounds
  constructor
  · intro hrefused
    rcases Nat.eq_zero_or_pos a.total with hzero | hpos
    · simp [runAssembly, hzero, Outcome.response, CommandError.exitCode_ne_zero]
    · have hbound := hrefused.resolve_left hpos.ne'
      simp [runAssembly, hpos.ne', hbound, Outcome.response, CommandError.exitCode_ne_zero]
  · intro hzero hbound hfailure
    rw [runAssembly, if_neg hzero, if_neg hbound.not_ge, hrounds, hfailure]
    exact ⟨(Graph.completed_performAll hfailure).trans (length_rounds a k), rfl⟩
  · intro e hzero hbound hfailure
    rw [runAssembly, if_neg hzero, if_neg hbound.not_ge, hrounds, hfailure]
    exact ⟨rfl, rfl, fun _ => CommandError.exists_report_activation _ _⟩

/-- Running needs the assembly of what the name stands for, and nothing else. -/
lemma respondTo_run (t : FileTree) (name : String) (k : Nat) :
    respondTo t (.run name k) =
      match loadedAssembly t name with
      | .error e => Outcome.response { failure := some e }
      | .ok (d, a) => (runAssembly d a k).response := by
  rw [respondTo, perform, runGraph, Description.run_bind_of_run (run_loadAssembly t name)]
  rcases loadedAssembly t name with e | ⟨d, a⟩ <;> rfl

/-- The program says so of the script of a description. -/
lemma answersRun_respondTo {t : FileTree} {name : String} {d : Description}
    {a : Assembly Empty} (hd : t.StandsFor name d) (ha : Assembly.build d = .ok a) (k : Nat) :
    AnswersRun d a k (respondTo t (.run name k)) := by
  rw [respondTo_run, loadedAssembly_eq_ok.mpr ⟨hd, ha⟩]
  exact answersRun_runAssembly d a k

/-- Running a script is performing its activations one after the other until one fails.
The observer is told 1, 2 and so on up to the number of those that completed, and the
result is that number, which is then the length of the script, or the failure. The
program performs the script round after round on one graph. If an activation fails then
it says which one, counted over all rounds. -/
theorem script_performed {t : FileTree} {args : List String} {name : String} {k : Nat}
    {d : Description} {b : Assembly Empty}
    (hargs : Command.ofArguments? args = some (.run name k)) (hd : t.StandsFor name d)
    (hb : Assembly.build d = .ok b) :
    (∀ {τ β : Type} [Processor τ] (a : Assembly τ) (report : β → Nat → β) (progress : β),
      let p := Graph.performAll a.activations a.graph
      let r := a.runScript report progress
      r.assembly = { a with graph := p.graph } ∧
      r.calls = p.callbacks.reverse ∧
      r.progress = (List.range' 1 p.completed).foldl report progress ∧
      (p.failure = none → p.completed = a.total ∧ r.result = .ok a.total) ∧
      ∀ e, p.failure = some e → r.result = .error e) ∧
    AnswersRun d b k (answer t args) := by
  refine ⟨fun a report progress => ?_, answer_eq hargs ▸ answersRun_respondTo hd hb k⟩
  have hrun := a.performs_runScript report progress
  refine ⟨hrun.assembly, hrun.calls.trans (List.append_nil _), hrun.progress, fun hp => ?_,
    fun e hp => ?_⟩
  · have hcompleted := (Graph.completed_performAll hp).trans a.length_activations
    refine ⟨hcompleted, ?_⟩
    rw [Assembly.ScriptRun.result, hrun.failure, hp, hrun.done, hcompleted]
    exact congrArg Except.ok (Nat.zero_add _)
  · rw [Assembly.ScriptRun.result, hrun.failure, hp]

/-- Pushes the second of three nodes once. The source has one buffer, which the last node
keeps: it cannot run, as its output is not linked. -/
def starving : Description where
  name := "starving"
  nodes := [{ name := "a", kind := .source, buffers := some 1 },
    { name := "b", kind := .mixer, inputs := some 1 },
    { name := "c", kind := .mixer, inputs := some 1 }]
  links := [⟨"a", "b"⟩, ⟨"b", "c"⟩]
  script := [⟨.push, "b", 1⟩]

/-- Its numbers are small. -/
lemma inRange_starving : starving.InRange where
  nodes := by
    simp only [starving, List.forall_mem_cons]
    refine ⟨?_, ?_, ?_, by simp⟩ <;> constructor <;> simp [Text.bound32]
  times := by simp [starving, Text.bound32]

/-- In a second round of one push each, the first activation fails, which is activation
2 of the run. -/
theorem script_performed_starving :
    ∃ b : Assembly Empty, Assembly.build starving = .ok b ∧
      (performed b 2).completed = 1 ∧
      ∃ causes, (answer { entries := [("g", .file starving.toToml.toUTF8)] }
        ["run", "g", "-r2"]).errors = "Error: activation 2 failed\n" ++ causes := by
  have hargs : Command.ofArguments? ["run", "g", "-r2"] = some (.run "g" 2) := by
    decide +kernel
  have hd : ({ entries := [("g", .file starving.toToml.toUTF8)] } : FileTree).StandsFor "g"
      starving :=
    .inr ⟨by decide +kernel, _, rfl, inRange_starving.ofToml?_toToml⟩
  obtain ⟨b, hb⟩ : ∃ b : Assembly Empty, Assembly.build starving = .ok b :=
    Assembly.exists_build (by decide) (by decide +kernel)
  have hrun : (Assembly.build (τ := Empty) starving).toOption.any (fun b =>
      b.total = 1 ∧ (performed b 2).completed = 1 ∧ (performed b 2).failure =
        some (.processFailed ⟨2⟩ .unlinked)) = true := by
    decide +kernel
  rw [hb] at hrun
  obtain ⟨htotal, hcompleted, hfailure⟩ := of_decide_eq_true hrun
  obtain ⟨-, hcode, herrors⟩ := (script_performed hargs hd hb).2.failed _ (by omega)
    (by rw [htotal]; decide) hfailure
  rw [hcompleted] at hcode herrors
  exact ⟨b, hb, hcompleted, herrors (by rw [hcode]; decide)⟩

end CommandLine

end MediaGraph

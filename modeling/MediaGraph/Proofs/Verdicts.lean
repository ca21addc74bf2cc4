/-
The commands agree on which graphs are good.

* `Description.IsCountable`: there are numbers enough for the ports and the activations;
* `Verdict`, `Verdict.lines`: what is printed on a graph that was checked;
* `Verdict.of`, `verdict_eq`: the verdict on what a name stands for;
* `CommandLine.run_checkGraphs`: graphs are checked one after the other, each for itself;
* `respondTo_inspect`, `code_inspect_eq_zero_iff`: like a run, showing starts from the
  description that the name stands for, so good graphs are shown and no others;
* `Response.GivesUp`, `AnswersRun.givesUp_iff`: a run gives up before its first
  activation only if there is none to count;
* `Verdict.Shared`, `CommandLine.verdicts_shared`: all commands go by the same verdict;
* `CommandLine.verdicts_not_shared`: they do not if a graph is too large.
-/
import MediaGraph.Proofs.Faithful
import MediaGraph.Proofs.Scripts

namespace MediaGraph

/-! ### How many activations there are -/

/-- The script of an assembly has as many activations as that of its description. -/
lemma Assembly.total_of_build {d : Description} {a : Assembly Empty}
    (h : Assembly.build d = .ok a) : a.total = d.total := by
  have hscript := (represents_of_build h).script
  rw [total, Description.total]
  generalize d.script = steps, a.script = script at hscript
  induction hscript with
  | nil => rfl
  | cons hstep _ ih => rw [List.foldr_cons, List.foldr_cons, hstep.2.2.1, ih]

/-- The ports of a description have numbers enough, and its activations can be counted in
64 bits. -/
structure Description.IsCountable (d : Description) : Prop where
  ports : d.portTotal ≤ Handle.bound
  activations : d.total < CommandLine.bound64

namespace CommandLine

/-! ### Verdicts -/

/-- What is printed on a graph that was checked. -/
structure Verdict where
  name : String
  good : Bool
  remark : String
  /-- The flaws, if there are several. -/
  details : List String := []

namespace Verdict

/-- The lines of a verdict. -/
def lines (v : Verdict) : List String :=
  (if v.good then s!"OK    {v.name} {v.remark}" else s!"FAIL  {v.name}: {v.remark}") ::
    v.details.map fun detail => s!"        - {detail}"

/-- What is said of a good graph. -/
def size (d : Description) : String :=
  s!"({d.nodes.length} nodes, {d.links.length} links, {d.total} activations)"

/-- The verdict on what a name stands for. -/
def of (name : String) : Except CommandError Description → Verdict
  | .error e => { name, good := false, remark := e.message }
  | .ok d =>
    match d.validate with
    | .ok () => { name, good := true, remark := size d }
    | .error flaws =>
      match flaws.others with
      | [] => { name, good := false, remark := flaws.first.message }
      | _ =>
        { name
          good := false
          remark := s!"{flaws.toList.length} errors"
          details := flaws.toList.map Flaw.message }

variable {name : String} {r : Except CommandError Description}

lemma name_of : (of name r).name = name := by
  unfold of
  repeat' split
  all_goals rfl

/-- Only what is accepted is good. -/
lemma good_of_iff : (of name r).good = true ↔ ∃ d, r = .ok d ∧ d.validate = .ok () := by
  rcases r with e | d
  · simp [of]
  · rcases hvalid : d.validate with flaws | ⟨⟩
    · rcases hothers : flaws.others with _ | ⟨_, _⟩ <;> simp [of, hvalid, hothers]
    · simp [of, hvalid]

/-- A good graph is told its size. -/
lemma of_ok {d : Description} (h : d.validate = .ok ()) :
    of name (.ok d) = { name, good := true, remark := size d } := by
  simp [of, h]

end Verdict

/-- Checking a graph gives the lines of its verdict, as long as its activations can be
counted. -/
lemma verdict_eq (name : String) (r : Except CommandError Description)
    (htotal : ∀ d, r = .ok d → d.validate = .ok () → d.total < bound64) :
    verdict name r = .ok ((Verdict.of name r).good, (Verdict.of name r).lines) := by
  rcases r with e | d
  · rfl
  · rcases hvalid : d.validate with flaws | ⟨⟩
    · rcases hothers : flaws.others with _ | ⟨_, _⟩
      · simp [verdict, Verdict.of, Verdict.lines, hvalid, hothers]
      · simp [verdict, Verdict.of, Verdict.lines, hvalid, hothers, toString,
          String.append_assoc]
    · have hopen : " (" = " " ++ "(" := rfl
      have hbound := Nat.not_le_of_lt (htotal d rfl hvalid)
      simp only [verdict, Verdict.of, Verdict.lines, Verdict.size, hvalid, hopen, toString,
        String.append_assoc, if_neg hbound, if_true, List.map_nil]

/-- The verdicts on graphs. -/
def verdicts (t : FileTree) (names : List String) : List Verdict :=
  names.map fun name => .of name (loaded t name)

/-- Every graph is checked for itself. -/
lemma run_checkGraphs {t : FileTree} {names : List String}
    (htotal : ∀ name ∈ names, ∀ d, t.StandsFor name d → d.validate = .ok () →
      d.total < bound64) :
    (checkGraphs names : StateM FileTree _).run t =
      (((verdicts t names).map fun v => (v.good, v.lines), none), t) := by
  induction names with
  | nil => rfl
  | cons name rest ih =>
      obtain ⟨hname, hrest⟩ := List.forall_mem_cons.mp htotal
      have hverdict := verdict_eq name (loaded t name) fun d hd =>
        hname d (loaded_eq_ok.mp hd)
      rw [checkGraphs, Description.run_bind_of_run (run_loadGraph t name), hverdict]
      dsimp only
      rw [Description.run_bind_of_run (ih hrest)]
      rfl

/-- Checking succeeds if all graphs are good. -/
lemma respondTo_validate {t : FileTree} {names : List String}
    (htotal : ∀ name ∈ names, ∀ d, t.StandsFor name d → d.validate = .ok () →
      d.total < bound64) :
    (respondTo t (.validate names)).output =
        unlines ((verdicts t names).flatMap Verdict.lines) ∧
      ((respondTo t (.validate names)).code = 0 ↔
        ∀ v ∈ verdicts t names, v.good = true) := by
  rw [respondTo, perform, validateGraphs,
    Description.run_bind_of_run (run_checkGraphs htotal)]
  have hlines : ((verdicts t names).map fun v => (v.good, v.lines)).flatMap (·.2) =
      (verdicts t names).flatMap Verdict.lines := by
    rw [List.flatMap_map]
  have hcount : ((verdicts t names).map fun v => (v.good, v.lines)).countP (fun v => !v.1) =
      0 ↔ ∀ v ∈ verdicts t names, v.good = true := by
    simp [List.countP_eq_zero]
  refine ⟨congrArg unlines hlines, ?_⟩
  rw [Outcome.code_response_eq_zero_iff, ← hcount]
  change (if _ = 0 then none else some _) = none ↔ _
  simp only [ite_eq_left_iff, reduceCtorEq, imp_false, not_not]

/-- One good graph gets its verdict, as long as its activations can be counted. -/
lemma respondTo_validate_of_lt {t : FileTree} {name : String} {d : Description}
    (hd : t.StandsFor name d) (hvalid : d.validate = .ok ()) (htotal : d.total < bound64) :
    (respondTo t (.validate [name])).code = 0 ∧
      (respondTo t (.validate [name])).output =
        unlines [s!"OK    {name} {Verdict.size d}"] := by
  have hcounted : ∀ n ∈ [name], ∀ d', t.StandsFor n d' → d'.validate = .ok () →
      d'.total < bound64 := by
    simp only [List.forall_mem_singleton]
    intro d' hd' _
    rwa [hd'.unique hd]
  have hverdicts : verdicts t [name] = [{ name, good := true, remark := Verdict.size d }] := by
    rw [verdicts, List.map_singleton, loaded_eq_ok.mpr hd, Verdict.of_ok hvalid]
  obtain ⟨houtput, hcode⟩ := respondTo_validate hcounted
  rw [hverdicts] at houtput hcode
  exact ⟨hcode.mpr (by simp), houtput⟩

/-- Nothing is said of a good graph whose activations cannot be counted. -/
lemma respondTo_validate_of_le {t : FileTree} {name : String} {d : Description}
    (hd : t.StandsFor name d) (hvalid : d.validate = .ok ()) (htotal : bound64 ≤ d.total) :
    respondTo t (.validate [name]) =
      Outcome.response { failure := some .tooManyActivations } := by
  have hverdict : verdict name (.ok d) = .error .tooManyActivations := by
    simp only [verdict, hvalid, if_pos htotal]
  have hcheck : (checkGraphs [name] : StateM FileTree _).run t =
      (([], some .tooManyActivations), t) := by
    rw [checkGraphs, Description.run_bind_of_run (run_loadGraph t name), loaded_eq_ok.mpr hd,
      hverdict]
    rfl
  rw [respondTo, perform, validateGraphs, Description.run_bind_of_run hcheck]
  rfl

/-! ### Showing and running -/

variable {t : FileTree} {name : String}

/-- What is shown of an assembly. -/
def inspection (d : Description) (a : Assembly Empty) (json : Bool) : String :=
  unlines (if json then [(GraphReport.of d a).json.text] else (GraphReport.of d a).lines)

/-- Like running, showing needs the assembly of what the name stands for. -/
lemma respondTo_inspect (t : FileTree) (name : String) (json : Bool) :
    respondTo t (.inspect name json) =
      match loadedAssembly t name with
      | .error e => Outcome.response { failure := some e }
      | .ok (d, a) => ⟨0, inspection d a json, ""⟩ := by
  rw [respondTo, perform, inspectGraph, Description.run_bind_of_run (run_loadAssembly t name)]
  rcases loadedAssembly t name with e | ⟨d, a⟩ <;> rfl

/-- Printing goes by the same bundled graphs. -/
lemma respondTo_print (t : FileTree) (name : String) :
    respondTo t (.print name none) =
      match Catalogue.find? name with
      | none => Outcome.response { failure := some (.notBundled name) }
      | some d => ⟨0, d.toToml, ""⟩ := by
  have hprint : respondTo t (.print name none) =
      ((printGraph name none : StateM FileTree _).run t).1.response := rfl
  rw [hprint]
  dsimp only [printGraph]
  cases Catalogue.find? name <;> rfl

/-- There is an assembly exactly if the graph is good. -/
lemma exists_loadedAssembly_iff
    (hports : ∀ d, t.StandsFor name d → d.validate = .ok () → d.portTotal ≤ Handle.bound) :
    (∃ d a, loadedAssembly t name = .ok (d, a)) ↔
      ∃ d, t.StandsFor name d ∧ d.validate = .ok () := by
  simp only [loadedAssembly_eq_ok, exists_and_left]
  exact exists_congr fun d => and_congr_right fun hd => Assembly.exists_build_iff (hports d hd)

/-- Graphs that are shown are good. -/
lemma code_inspect_eq_zero_iff
    (hports : ∀ d, t.StandsFor name d → d.validate = .ok () → d.portTotal ≤ Handle.bound)
    (json : Bool) :
    (respondTo t (.inspect name json)).code = 0 ↔
      ∃ d, t.StandsFor name d ∧ d.validate = .ok () := by
  rw [respondTo_inspect, ← exists_loadedAssembly_iff hports]
  rcases loadedAssembly t name with e | ⟨d, a⟩
  · simp [Outcome.code_response_eq_zero_iff]
  · simp

/-- A command gives up if it fails before it says anything. A run that performs an
activation says first what it is going to perform. -/
def Response.GivesUp (r : Response) : Prop := r.code ≠ 0 ∧ r.output = ""

lemma unlines_cons_ne_empty (line : String) (rest : List String) :
    unlines (line :: rest) ≠ "" := by
  simp [unlines]

/-- One round gives up only if its activations are none, or too many to count. -/
lemma AnswersRun.givesUp_iff {d : Description} {a : Assembly Empty} {r : Response}
    (h : AnswersRun d a 1 r) : r.GivesUp ↔ a.total = 0 ∨ bound64 ≤ a.total := by
  have hrefused := h.refused
  have hcompleted := h.completed
  have hfailed := h.failed
  simp only [Nat.mul_one] at hrefused hcompleted hfailed
  refine ⟨fun hgives => ?_, hrefused⟩
  by_contra! hstarts
  rcases hfailure : (performed a 1).failure with _ | e
  · obtain ⟨-, rfl⟩ := hcompleted hstarts.1 hstarts.2 hfailure
    exact hgives.1 rfl
  · have houtput := (hfailed e hstarts.1 hstarts.2 hfailure).1
    exact unlines_cons_ne_empty _ _ (houtput.symm.trans hgives.2)

/-- One round of a graph gives up exactly if the graph is not shown, or if there are no
activations, as long as they can be counted. -/
lemma givesUp_run_iff
    (htotal : ∀ d, t.StandsFor name d → d.validate = .ok () → d.total < bound64)
    (json : Bool) :
    (respondTo t (.run name 1)).GivesUp ↔
      (respondTo t (.inspect name json)).code ≠ 0 ∨ ∃ d, t.StandsFor name d ∧ d.total = 0 := by
  rcases hloaded : loadedAssembly t name with e | ⟨d, a⟩
  · refine iff_of_true ?_ (.inl ?_)
    · rw [respondTo_run, hloaded]
      exact ⟨by simp [Outcome.code_response_eq_zero_iff], rfl⟩
    · rw [respondTo_inspect, hloaded]
      simp [Outcome.code_response_eq_zero_iff]
  · obtain ⟨hd, ha⟩ := loadedAssembly_eq_ok.mp hloaded
    have hshown : (respondTo t (.inspect name json)).code = 0 := by
      rw [respondTo_inspect, hloaded]
    rw [(answersRun_respondTo hd ha 1).givesUp_iff, Assembly.total_of_build ha]
    constructor
    · rintro (hzero | hbound)
      · exact .inr ⟨d, hd, hzero⟩
      · have hvalid := (Assembly.exists_parts ha).1
        exact absurd (htotal d hd hvalid) (Nat.not_lt_of_le hbound)
    · rintro (hne | ⟨d', hd', hzero⟩)
      · exact absurd hshown hne
      · obtain rfl := hd.unique hd'
        exact .inl hzero

/-! ### All together -/

/-- What all commands have in common on the graph of a verdict. -/
structure Verdict.Shared (t : FileTree) (v : Verdict) : Prop where
  /-- The name stands for one description at most. -/
  unique : ∀ d d', t.StandsFor v.name d → t.StandsFor v.name d' → d = d'
  good_iff : v.good = true ↔ ∃ d, t.StandsFor v.name d ∧ d.validate = .ok ()
  remark : ∀ d, t.StandsFor v.name d → v.good = true → v.remark = Verdict.size d
  inspect_iff : ∀ json, (respondTo t (.inspect v.name json)).code = 0 ↔ v.good = true
  inspected : ∀ json d a, t.StandsFor v.name d → Assembly.build d = .ok a →
    (respondTo t (.inspect v.name json)).output = inspection d a json
  run_iff : ∀ json, (respondTo t (.run v.name 1)).GivesUp ↔
    (respondTo t (.inspect v.name json)).code ≠ 0 ∨ ∃ d, t.StandsFor v.name d ∧ d.total = 0
  ran : ∀ k d a, t.StandsFor v.name d → Assembly.build d = .ok a →
    AnswersRun d a k (respondTo t (.run v.name k))
  /-- What is printed is a text of that description. -/
  printed : (respondTo t (.print v.name none)).code = 0 → ∃ d, t.StandsFor v.name d ∧
    (respondTo t (.print v.name none)).output = d.toToml ∧
    Description.ofToml? d.toToml = some d

lemma Verdict.shared_of
    (hcount : ∀ d, t.StandsFor name d → d.validate = .ok () → d.IsCountable) :
    (Verdict.of name (loaded t name)).Shared t := by
  have hgood : (Verdict.of name (loaded t name)).good = true ↔
      ∃ d, t.StandsFor name d ∧ d.validate = .ok () := by
    simp only [good_of_iff, loaded_eq_ok]
  constructor
  all_goals rw [name_of]
  · exact fun d d' h h' => h.unique h'
  · exact hgood
  · intro d hd hok
    obtain ⟨d', hd', hvalid⟩ := hgood.mp hok
    obtain rfl := hd.unique hd'
    rw [loaded_eq_ok.mpr hd, of_ok hvalid]
  · intro json
    rw [code_inspect_eq_zero_iff fun d hd hvalid => (hcount d hd hvalid).ports, hgood]
  · intro json d a hd ha
    rw [respondTo_inspect, loadedAssembly_eq_ok.mpr ⟨hd, ha⟩]
  · exact givesUp_run_iff fun d hd hvalid => (hcount d hd hvalid).activations
  · exact fun k d a hd ha => answersRun_respondTo hd ha k
  · intro hcode
    rw [respondTo_print] at hcode ⊢
    rcases hfind : Catalogue.find? name with _ | d
    · simp [hfind, Outcome.code_response_eq_zero_iff] at hcode
    · have hd : t.StandsFor name d := .inl hfind
      exact ⟨d, hd, rfl, hd.inRange.ofToml?_toToml⟩

/-- Checking prints one verdict for each graph in order, and succeeds if all are good.
The other commands go by the same description, and so by the same verdict, as long as
the ports of a good graph have numbers enough and its activations can be counted. -/
theorem verdicts_shared {args names : List String}
    (hargs : Command.ofArguments? args = some (.validate names))
    (hcount : ∀ name ∈ names, ∀ d, t.StandsFor name d → d.validate = .ok () →
      d.IsCountable) :
    ∃ vs : List Verdict, vs.map (·.name) = names ∧
      (answer t args).output = unlines (vs.flatMap Verdict.lines) ∧
      ((answer t args).code = 0 ↔ ∀ v ∈ vs, v.good = true) ∧
      ∀ v ∈ vs, v.Shared t := by
  obtain ⟨houtput, hcode⟩ := respondTo_validate fun name hname d hd hvalid =>
    (hcount name hname d hd hvalid).activations
  rw [answer_eq hargs]
  refine ⟨verdicts t names, ?_, houtput, hcode, ?_⟩
  · simp [verdicts, Function.comp_def, Verdict.name_of]
  · intro v hv
    obtain ⟨name, hname, rfl⟩ := List.mem_map.mp hv
    exact Verdict.shared_of (hcount name hname)

/-- Without any files, a bundled graph is good, and a name that no graph has is not. -/
theorem verdicts_shared_nowhere :
    (∀ name ∈ ["fan-in", "nowhere"], ∀ d, ({} : FileTree).StandsFor name d →
      d.validate = .ok () → d.IsCountable) ∧
    ∃ vs : List Verdict, vs.map (·.name) = ["fan-in", "nowhere"] ∧
      vs.map (·.good) = [true, false] ∧
      (answer {} ["validate", "fan-in", "nowhere"]).output =
        unlines (vs.flatMap Verdict.lines) ∧
      (answer {} ["validate", "fan-in", "nowhere"]).code ≠ 0 := by
  have hargs : Command.ofArguments? ["validate", "fan-in", "nowhere"] =
      some (.validate ["fan-in", "nowhere"]) := by
    decide +kernel
  have hfanIn : ({} : FileTree).StandsFor "fan-in" Catalogue.fanIn := .inl (by decide +kernel)
  have hnowhere : ∀ d, ¬ ({} : FileTree).StandsFor "nowhere" d := by
    rintro d (hfind | ⟨-, text, hread, -⟩)
    · have hnone : Catalogue.find? "nowhere" = none := by decide +kernel
      exact nomatch hnone.symm.trans hfind
    · exact nomatch hread
  have hcount : ∀ name ∈ ["fan-in", "nowhere"], ∀ d, ({} : FileTree).StandsFor name d →
      d.validate = .ok () → d.IsCountable := by
    simp only [List.forall_mem_cons]
    refine ⟨fun d hd _ => ?_, fun d hd => absurd hd (hnowhere d), by simp⟩
    rw [hd.unique hfanIn]
    exact ⟨by decide, by decide⟩
  obtain ⟨vs, hnames, houtput, hcode, hshared⟩ := verdicts_shared (t := {}) hargs hcount
  obtain ⟨v, w, rfl⟩ : ∃ v w, vs = [v, w] :=
    List.length_eq_two.mp (by simpa using congrArg List.length hnames)
  obtain ⟨hv, hw⟩ : v.name = "fan-in" ∧ w.name = "nowhere" := by simpa using hnames
  have hvgood : v.good = true := (hshared v (by simp)).good_iff.mpr
    ⟨Catalogue.fanIn, by rwa [hv], by decide +kernel⟩
  have hwgood : w.good = false := by
    rw [Bool.eq_false_iff, Ne, (hshared w (by simp)).good_iff, hw]
    exact fun ⟨d, hd, _⟩ => hnowhere d hd
  exact ⟨hcount, [v, w], hnames, by simp [hvgood, hwgood], houtput, by simp [hcode, hwgood]⟩

/-! ### Graphs that are too large -/

/-- A mixer with as many inputs as 32 bits can tell, and a sink. There is one port more
than there are numbers. -/
def crowded : Description where
  name := "crowded"
  nodes := [{ name := "mix", kind := .mixer, inputs := some 4294967295 },
    { name := "out", kind := .sink }]
  links := [⟨"mix", "out"⟩]
  script := [⟨.pull, "out", 1⟩]

lemma inRange_crowded : crowded.InRange where
  nodes := by
    simp only [crowded, List.forall_mem_cons]
    refine ⟨?_, ?_, by simp⟩ <;> constructor <;> simp [Text.bound32]
  times := by simp [crowded, Text.bound32]

lemma validate_crowded : crowded.validate = .ok () := by decide +kernel

/-- The last port is read back as the first one, which is an input of the node that it is
to be linked to. -/
lemma build_crowded : Assembly.build (τ := Empty) crowded = .error (.graph (.sameNode ⟨0⟩)) := by
  have hd := Description.accepted_of_validate validate_crowded
  have hlimit : ∀ spec ∈ crowded.nodes, spec.inputCount ≤ requiredLimit := by
    simp [crowded, NodeSpec.inputCount, requiredLimit]
  obtain ⟨nodes, g, hrun⟩ := Assembly.succeeds_addSpecs (τ := Empty)
    (Graph.follows_empty (fun _ _ => False) fun _ => false) hlimit
  obtain ⟨rfl, h⟩ := Assembly.follows_addSpecs
    (Graph.follows_empty (fun _ _ => False) fun _ => false) hrun
  have hnumbered := Assembly.numbered_addSpecs Graph.numbered_empty hrun
  rw [List.nil_append] at h hnumbered
  rw [show crowded.nodes.map NodeSpec.portCounts = [(4294967295, 1), (1, 0)] from rfl]
    at hnumbered
  -- the ports at the two ends of the link, and the one that the second is mistaken for
  have hout : g.portAt? .output ⟨0, 0⟩ = some ⟨4294967295⟩ := by
    simpa [Graph.portSum] using hnumbered.portAt?_output (i := 0) rfl Nat.one_pos
  have hin : g.portAt? .input ⟨1, 0⟩ = some ⟨4294967296⟩ := by
    simpa [Graph.portSum] using hnumbered.portAt?_input (i := 1) rfl Nat.one_pos
  have hfirst : g.portAt? .input ⟨0, 0⟩ = some ⟨0⟩ := by
    simpa [Graph.portSum] using hnumbered.portAt?_input (i := 0) (k := 0) rfl (by simp)
  obtain ⟨out, hp, hpo, hpd⟩ := h.wf.portAt?_eq_some hout
  obtain ⟨inp, hq, hqo, hqd⟩ := h.wf.portAt?_eq_some hfirst
  let a : Assembly Empty := {
    name := crowded.name
    graph := g
    nodes := Assembly.named 0 crowded.nodes
    sinkNodes := Assembly.sinksOf crowded (Assembly.named 0 crowded.nodes) }
  have hsource : a.resolve .output "mix" = .ok ⟨4294967295⟩ :=
    (Assembly.resolve_eq_ok hd h rfl).mpr ⟨⟨0, 0⟩, _, by decide +kernel, hout,
      Handle.wrapped_of_lt (by decide)⟩
  have htarget : a.resolve .input "out" = .ok ⟨0⟩ :=
    (Assembly.resolve_eq_ok hd h rfl).mpr ⟨⟨1, 0⟩, _, by decide +kernel, hin,
      by simp [Handle.wrapped, Handle.bound]⟩
  have hlink : (Graph.link ⟨4294967295⟩ ⟨0⟩).run g = (.error (.sameNode ⟨0⟩), g) := by
    simp [Graph.link, ExceptT.run, hp, hq, hpo, hqo, hpd, hqd, h.link_eq_none hp,
      h.link_eq_none hq]
  have hconnect : a.connect ⟨"mix", "out"⟩ = .error (.graph (.sameNode ⟨0⟩)) := by
    simp only [Assembly.connect, hsource, htarget, Assembly.flawed, Assembly.edit, bind,
      Except.bind]
    rw [hlink]
  have hlinks : crowded.links.foldlM Assembly.connect a = .error (.graph (.sameNode ⟨0⟩)) := by
    rw [show crowded.links = [⟨"mix", "out"⟩] from rfl, List.foldlM_cons, hconnect]
    rfl
  exact Assembly.build_eq_error validate_crowded hrun hlinks

/-- A sink that is pulled in so many steps, each as often as 32 bits can tell. -/
def lasting (steps : ℕ) : Description where
  name := "lasting"
  nodes := [{ name := "out", kind := .sink }]
  script := List.replicate steps ⟨.pull, "out", 4294967295⟩

lemma inRange_lasting (steps : ℕ) : (lasting steps).InRange where
  nodes := by
    simp only [lasting, List.forall_mem_cons]
    refine ⟨?_, by simp⟩
    constructor <;> simp
  times s hs := by
    rw [List.eq_of_mem_replicate hs]
    simp [Text.bound32]

/-- A step may be taken as often as it may be taken once. -/
lemma validate_lasting (steps : ℕ) : (lasting steps).validate = .ok () := by
  have hone : (lasting 1).validate = .ok () := by decide +kernel
  obtain ⟨hd, hlinks, hscript⟩ := Description.validate_eq_ok.mp hone
  refine Description.validate_eq_ok.mpr
    ⟨⟨hd.name, hd.unique, hd.settings⟩, hlinks, fun step hstep => ?_⟩
  rw [List.eq_of_mem_replicate hstep]
  exact hscript ⟨.pull, "out", 4294967295⟩ (by simp [lasting])

lemma total_lasting (steps : ℕ) : (lasting steps).total = steps * 4294967295 := by
  rw [Description.total, lasting]
  induction steps with
  | zero => rfl
  | succ k ih => rw [List.replicate_succ, List.foldr_cons, ih, Nat.succ_mul, Nat.add_comm]

lemma portTotal_lasting (steps : ℕ) : (lasting steps).portTotal = 1 := rfl

/-- A file with a description. -/
def stored (d : Description) : FileTree := { entries := [("g", .file d.toToml.toUTF8)] }

lemma standsFor_stored {d : Description} (h : d.InRange) : (stored d).StandsFor "g" d :=
  .inr ⟨by decide +kernel, _, rfl, h.ofToml?_toToml⟩

/-- With more ports than there are numbers, a graph is good and yet not shown. With more
activations than 64 bits can tell, it is shown, and yet it gets no verdict and a run of it
gives up. -/
theorem verdicts_not_shared :
    (answer (stored crowded) ["validate", "g"]).code = 0 ∧
    (answer (stored crowded) ["validate", "g"]).output =
      "OK    g (2 nodes, 1 links, 1 activations)\n" ∧
    answer (stored crowded) ["inspect", "g"] =
      ⟨1, "", (CommandError.unbuildable (.graph (.sameNode ⟨0⟩))).report⟩ ∧
    (answer (stored (lasting 4294967298)) ["inspect", "g"]).code = 0 ∧
    (lasting 4294967298).total ≠ 0 ∧
    (answer (stored (lasting 4294967298)) ["validate", "g"]).GivesUp ∧
    (answer (stored (lasting 4294967298)) ["run", "g"]).GivesUp := by
  have hvalidate : Command.ofArguments? ["validate", "g"] = some (.validate ["g"]) := by
    decide +kernel
  have hinspect : Command.ofArguments? ["inspect", "g"] = some (.inspect "g" false) := by
    decide +kernel
  have hrun : Command.ofArguments? ["run", "g"] = some (.run "g" 1) := by
    decide +kernel
  simp only [answer_eq hvalidate, answer_eq hinspect, answer_eq hrun]
  have hcrowded := standsFor_stored inRange_crowded
  obtain ⟨hcode, houtput⟩ := respondTo_validate_of_lt hcrowded validate_crowded (by decide)
  have hlasting := standsFor_stored (inRange_lasting 4294967298)
  have htotal : bound64 ≤ (lasting 4294967298).total := by
    rw [total_lasting]
    decide
  obtain ⟨a, ha⟩ : ∃ a : Assembly Empty, Assembly.build (lasting 4294967298) = .ok a :=
    Assembly.exists_build (by rw [portTotal_lasting]; decide) (validate_lasting _)
  refine ⟨hcode, houtput.trans (by decide +kernel), ?_, ?_, ?_, ?_, ?_⟩
  · rw [respondTo_inspect, loadedAssembly_eq_error hcrowded build_crowded]
    rfl
  · rw [respondTo_inspect, loadedAssembly_eq_ok.mpr ⟨hlasting, ha⟩]
  · exact Nat.ne_of_gt (Nat.lt_of_lt_of_le (by decide) htotal)
  · rw [respondTo_validate_of_le hlasting (validate_lasting _) htotal]
    exact ⟨by decide, rfl⟩
  · rw [(answersRun_respondTo hlasting ha 1).givesUp_iff, Assembly.total_of_build ha]
    exact .inr htotal

end CommandLine

end MediaGraph

/-
What the arguments of the program stand for.

* `FileTree.StandsFor`: the description that a name stands for, that of a bundled
  graph before that in a file;
* `StandsFor.unique`, `StandsFor.inRange`: there is one at most, and its numbers have at
  most 32 bits;
* `CommandLine.loaded`, `run_loadGraph`, `run_loadAssembly`: every command gets that
  description or an error, and leaves the files alone;
* `CommandLine.respondTo`, `answer`, `answer_eq`: what the program answers to a command,
  and to its arguments.
-/
import MediaGraph.CommandLine.Command
import MediaGraph.Proofs.Agreement
import MediaGraph.Proofs.RoundTrip

namespace MediaGraph

/-! ### Names of graphs -/

/-- A name stands for the bundled description of that name, or if there is none for the
description in the file of that name. -/
def FileTree.StandsFor (t : FileTree) (name : String) (d : Description) : Prop :=
  Catalogue.find? name = some d ∨
    Catalogue.find? name = none ∧ ∃ text : String,
      t.read name = .ok text.toUTF8 ∧ Description.ofToml? text = some d

namespace FileTree.StandsFor

variable {t : FileTree} {name : String} {d d' : Description}

/-- A name stands for one description at most. -/
lemma unique (h : t.StandsFor name d) (h' : t.StandsFor name d') : d = d' := by
  rcases h with h | ⟨h, text, hread, htext⟩ <;> rcases h' with h' | ⟨h', text', hread', htext'⟩
  · exact Option.some.inj (h.symm.trans h')
  · simp [h] at h'
  · simp [h] at h'
  · obtain rfl : text = text' :=
      String.toByteArray_inj.mp (Except.ok.inj (hread.symm.trans hread'))
    exact Option.some.inj (htext.symm.trans htext')

/-- The numbers of such a description have at most 32 bits. -/
lemma inRange (h : t.StandsFor name d) : d.InRange := by
  rcases h with h | ⟨-, text, -, htext⟩
  · exact Description.inRange_of_mem_catalogue (List.mem_of_find?_eq_some h)
  · exact Description.inRange_of_ofToml? htext

end FileTree.StandsFor

namespace CommandLine

variable {t : FileTree} {name : String} {d : Description}

/-! ### Loading -/

/-- A path is looked up, and no file is changed. -/
lemma run_pathExists (t : FileTree) (path : String) :
    (FileSystem.pathExists path : StateM FileTree Bool).run t =
      ((t.find path).toOption.isSome, t) := rfl

/-- Only the path of an entry can be read. -/
lemma isSome_find_of_read {path : String} {bytes : ByteArray} (h : t.read path = .ok bytes) :
    (t.find path).toOption.isSome = true := by
  obtain ⟨e, he, -⟩ := FileTree.exists_of_bind h
  rw [he]
  rfl

/-- Bytes are a text exactly if they are the encoding of it. -/
lemma fromUTF8?_eq_some_iff {bytes : ByteArray} {text : String} :
    String.fromUTF8? bytes = some text ↔ bytes = text.toUTF8 := by
  rw [String.fromUTF8?, Option.dite_none_right_eq_some]
  constructor
  · rintro ⟨hvalid, htext⟩
    rw [← Option.some.inj htext]
    rfl
  · rintro rfl
    exact ⟨text.isValidUTF8, rfl⟩

/-- Reading gives the text of a file, and changes no file. -/
lemma exists_run_readText (t : FileTree) (path : String) :
    ∃ r, (FileSystem.readText path : StateM FileTree _).run t = (r, t) ∧
      ∀ text : String, r = .ok text ↔ t.read path = .ok text.toUTF8 := by
  dsimp only [FileSystem.readText]
  rw [Description.run_bind_of_run (Description.run_get t)]
  rcases t.read path with e | bytes
  · exact ⟨_, rfl, by simp⟩
  · simp only [Except.ok.injEq, ← fromUTF8?_eq_some_iff]
    rcases String.fromUTF8? bytes with _ | text
    · exact ⟨_, rfl, by simp⟩
    · exact ⟨_, rfl, by simp⟩

/-- Loading gives the description in a file, and changes no file. -/
lemma exists_run_load (t : FileTree) (path : String) :
    ∃ r, (Description.load path : StateM FileTree _).run t = (r, t) ∧
      ∀ d, r = .ok d ↔
        ∃ text : String, t.read path = .ok text.toUTF8 ∧ Description.ofToml? text = some d := by
  obtain ⟨r, hr, htext⟩ := exists_run_readText t path
  simp only [← htext]
  rw [Description.load, Description.run_bind_of_run hr]
  rcases r with e | text
  · exact ⟨_, rfl, by simp⟩
  · dsimp only
    rcases hd : Description.ofToml? text with _ | d
    · exact ⟨_, rfl, by simp [hd]⟩
    · exact ⟨_, rfl, by simp [hd]⟩

/-- A command gets the description that the name stands for, and changes no file. -/
lemma exists_run_loadGraph (t : FileTree) (name : String) :
    ∃ r, (loadGraph name : StateM FileTree _).run t = (r, t) ∧
      ∀ d, r = .ok d ↔ t.StandsFor name d := by
  rw [loadGraph]
  rcases hfind : Catalogue.find? name with _ | bundled
  · dsimp only
    rw [Description.run_bind_of_run (run_pathExists t name)]
    rcases hpath : (t.find name).toOption.isSome
    · refine ⟨_, rfl, fun d => iff_of_false (by simp) ?_⟩
      rintro (h | ⟨-, text, hread, -⟩)
      · simp [hfind] at h
      · simp [isSome_find_of_read hread] at hpath
    · obtain ⟨r, hr, hload⟩ := exists_run_load t name
      rw [if_pos rfl, Description.run_bind_of_run hr]
      simp only [FileTree.StandsFor, hfind, ← hload]
      rcases r with e | d
      · exact ⟨_, rfl, by simp⟩
      · exact ⟨_, rfl, by simp⟩
  · exact ⟨_, rfl, by simp [FileTree.StandsFor, hfind]⟩

/-- What a command gets for a name. -/
def loaded (t : FileTree) (name : String) : Except CommandError Description :=
  ((loadGraph name : StateM FileTree _).run t).1

lemma run_loadGraph (t : FileTree) (name : String) :
    (loadGraph name : StateM FileTree _).run t = (loaded t name, t) := by
  obtain ⟨r, hr, -⟩ := exists_run_loadGraph t name
  rw [loaded, hr]

lemma loaded_eq_ok : loaded t name = .ok d ↔ t.StandsFor name d := by
  obtain ⟨r, hr, hd⟩ := exists_run_loadGraph t name
  rw [loaded, hr, hd]

/-- What a command gets for a name that it needs a graph for. -/
def loadedAssembly (t : FileTree) (name : String) :
    Except CommandError (Description × Assembly Empty) := do
  let d ← loaded t name
  let a ← assemble d
  pure (d, a)

lemma run_loadAssembly (t : FileTree) (name : String) :
    (loadAssembly name : StateM FileTree _).run t = (loadedAssembly t name, t) := by
  rw [loadAssembly, Description.run_bind_of_run (run_loadGraph t name), loadedAssembly]
  rcases loaded t name with e | d
  · rfl
  · simp only [bind, Except.bind]
    rcases assemble d with e | a <;> rfl

lemma loadedAssembly_eq_ok {a : Assembly Empty} :
    loadedAssembly t name = .ok (d, a) ↔ t.StandsFor name d ∧ Assembly.build d = .ok a := by
  rw [← loaded_eq_ok, loadedAssembly]
  rcases loaded t name with e | d'
  · simp [bind, Except.bind]
  · rcases hbuild : (Assembly.build d' : Except BuildError (Assembly Empty)) with e | a' <;>
      simp only [bind, Except.bind, assemble, hbuild, pure, Except.pure, Except.ok.injEq,
        Prod.mk.injEq, reduceCtorEq, false_iff] <;> grind

/-- A graph that cannot be built gives the error of building it. -/
lemma loadedAssembly_eq_error {e : BuildError}
    (hd : t.StandsFor name d) (hbuild : Assembly.build (τ := Empty) d = .error e) :
    loadedAssembly t name = .error (.unbuildable e) := by
  rw [loadedAssembly, loaded_eq_ok.mpr hd]
  simp only [bind, Except.bind, assemble, hbuild]

/-! ### Answers -/

/-- No failure has the exit code of a success. -/
lemma CommandError.exitCode_ne_zero (e : CommandError) : e.exitCode ≠ 0 := by
  unfold exitCode
  split <;> decide

/-- Whatever fails has another exit code than 0. -/
lemma Outcome.code_response_eq_zero_iff (o : Outcome) :
    o.response.code = 0 ↔ o.failure = none := by
  rcases h : o.failure with _ | e
  · simp [response, h]
  · simp [response, h, CommandError.exitCode_ne_zero]

/-- What the program answers to a command. -/
def respondTo (t : FileTree) (c : Command) : Response :=
  ((perform c : StateM FileTree Outcome).run t).1.response

/-- What the program answers to its arguments. -/
def answer (t : FileTree) (args : List String) : Response :=
  ((respond args : StateM FileTree Response).run t).1

/-- The program answers to the command that the arguments stand for. -/
lemma answer_eq {args : List String} {c : Command} (h : Command.ofArguments? args = some c) :
    answer t args = respondTo t c := by
  rw [answer, respond, h]
  rfl

end CommandLine

end MediaGraph

/-
Descriptions in files.

* `ConfigError`: why a description cannot be had, kept or built.
* `Description.load`: the description in a file.
* `Description.save`: writes a description to a file, making the directories
  that the file is in.
-/
import MediaGraph.Assembly
import MediaGraph.Description.Document
import MediaGraph.Storage.Basic
import MediaGraph.Storage.Path

namespace MediaGraph

/-- Why a description cannot be had, kept or built. -/
inductive ConfigError where
  | unreadable (path : String) (cause : ReadFailure)
  | unwritable (path : String) (cause : OsError)
  | noDirectory (path : String) (cause : OsError)
  /-- The text is no TOML document, or not that of a description. -/
  | malformed
  /-- No bundled description has this name. -/
  | notBundled (name : String)
  | build (cause : BuildError)
deriving DecidableEq, Repr

namespace ConfigError

/-- The text of an error. -/
def message : ConfigError → String
  | unreadable path cause => s!"failed to read file '{path}': {cause.message}"
  | unwritable path cause => s!"failed to write file '{path}': {cause.message}"
  | noDirectory path cause =>
    s!"failed to create directory '{path}': {cause.message}"
  | malformed => "failed to parse TOML: not the description of a graph"
  | notBundled name => s!"graph not found: {name}"
  | build cause => cause.message

/-- The text of what caused an error. -/
def cause? : ConfigError → Option String
  | unreadable _ cause => some cause.message
  | unwritable _ cause => some cause.message
  | noDirectory _ cause => some cause.message
  | malformed => none
  | notBundled _ => none
  | build (.invalid flaws) => some flaws.message
  | build (.graph e) => some e.message

end ConfigError

namespace Description

variable {m : Type → Type} [Monad m] [FileSystem m]

/-- The description in a file. -/
def load (path : String) : m (Except ConfigError Description) := do
  match ← FileSystem.readText path with
  | .error e => pure (.error (.unreadable path e))
  | .ok text =>
    match ofToml? text with
    | some d => pure (.ok d)
    | none => pure (.error .malformed)

/-- Makes the directory that a file is to be in, if it is missing. -/
def makeParent (path : String) : m (Except ConfigError Unit) := do
  match Path.parent? path with
  | none => pure (.ok ())
  | some parent =>
    if parent = "" ∨ (← FileSystem.pathExists parent) then pure (.ok ())
    else
      match ← FileSystem.makeDirectories parent with
      | .ok () => pure (.ok ())
      | .error e => pure (.error (.noDirectory parent e))

/-- Writes a description to a file. -/
def save (d : Description) (path : String) : m (Except ConfigError Unit) := do
  match ← makeParent path with
  | .error e => pure (.error e)
  | .ok () =>
    match ← FileSystem.writeText path d.toToml with
    | .ok () => pure (.ok ())
    | .error e => pure (.error (.unwritable path e))

end Description

end MediaGraph

/-
What programs ask of a file system.

* `OsError`, `ReadFailure`: why it refuses.
* `FileSystem`: reading and writing texts by path, in any monad.
-/

namespace MediaGraph

/-- Why a file system refuses an operation. -/
inductive OsError where
  /-- A numbered error of the operating system. -/
  | numbered (code : Nat) (text : String)
  /-- The path holds a character that no path can hold. -/
  | nulInPath
deriving DecidableEq, Repr

namespace OsError

/-- Some part of the path does not exist. -/
def notFound : OsError := numbered 2 "No such file or directory"

/-- Something exists where a new entry should go. -/
def alreadyExists : OsError := numbered 17 "File exists"

/-- A part of the path that leads on is not a directory. -/
def notDirectory : OsError := numbered 20 "Not a directory"

/-- A directory was found in place of a file. -/
def isDirectory : OsError := numbered 21 "Is a directory"

/-- The path or a part of it is too long. -/
def nameTooLong : OsError := numbered 36 "File name too long"

/-- The text of an error. -/
def message : OsError → String
  | numbered code text => s!"{text} (os error {code})"
  | nulInPath => "file name contained an unexpected NUL byte"

end OsError

/-- Why no text can be read. -/
inductive ReadFailure where
  | os (error : OsError)
  | notText
deriving DecidableEq, Repr

/-- The text of a failed reading. -/
def ReadFailure.message : ReadFailure → String
  | os e => e.message
  | notText => "stream did not contain valid UTF-8"

/-- File systems that can be used in the monad `m`. -/
class FileSystem (m : Type → Type) where
  /-- Whether a path leads to a file or to a directory. -/
  pathExists : String → m Bool
  /-- The text of a file. -/
  readText : String → m (Except ReadFailure String)
  /-- Makes a directory, and those that it is in. -/
  makeDirectories : String → m (Except OsError Unit)
  /-- Writes a file, in place of one that is there. -/
  writeText : String → String → m (Except OsError Unit)

end MediaGraph

/-
The program: the command line on the files of the machine.
-/
import MediaGraph.CommandLine.Command

namespace MediaGraph

/-- What an error of the machine says about a path. -/
def OsError.ofMachine (e : IO.Error) : OsError :=
  match e with
  | .noFileOrDirectory _ _ _ => .notFound
  | .inappropriateType _ code text => .numbered code.toNat text
  | .permissionDenied _ code text => .numbered code.toNat text
  | .alreadyExists _ code text => .numbered code.toNat text
  | .resourceExhausted _ code text => .numbered code.toNat text
  | .otherError code text => .numbered code.toNat text
  | e => .numbered 0 (toString e)

/-- Tries an action on the files of the machine. -/
def tryMachine {α : Type} (action : IO α) : IO (Except OsError α) := do
  match ← action.toBaseIO with
  | .ok x => pure (.ok x)
  | .error e => pure (.error (.ofMachine e))

instance : FileSystem IO where
  pathExists path := do
    pure (← tryMachine (IO.FS.Handle.mk path .read)).toOption.isSome
  readText path := do
    match ← tryMachine (IO.FS.readBinFile path) with
    | .error e => pure (.error (.os e))
    | .ok bytes =>
      match String.fromUTF8? bytes with
      | some text => pure (.ok text)
      | none => pure (.error .notText)
  makeDirectories path := tryMachine (IO.FS.createDirAll path)
  writeText path text := tryMachine (IO.FS.writeFile path text)

end MediaGraph

/-- Runs the command line. -/
def main (args : List String) : IO UInt32 := do
  let r ← (MediaGraph.CommandLine.respond args : IO _)
  IO.print r.output
  IO.eprint r.errors
  pure r.code.toUInt32

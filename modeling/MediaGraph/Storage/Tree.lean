/-
File trees: a file system as a value.

The tree is both the root of all paths and the working directory.

* `FileEntry`, `FileTree`: files and directories, and what is below the root.
* `FileTree.Place`: a place in a tree with the directories on the way to it.
* `FileTree.walk`: the place that a path leads to.
* `FileTree.put`: the tree with another entry at a place;
  `FileTree.lookup_putAmong` says what changes in its directory.
* `FileTree.read`, `FileTree.write`, `FileTree.makeDirectory`: the operations.
* An instance of `FileSystem` for computations on a file tree.
-/
import MediaGraph.Storage.Basic
import MediaGraph.Storage.Path

namespace MediaGraph

/-- A file with its bytes, or a directory with its entries by name. -/
inductive FileEntry where
  | file (bytes : ByteArray)
  | directory (entries : List (String × FileEntry))

/-- The entries of the root. -/
structure FileTree where
  entries : List (String × FileEntry) := []

namespace FileTree

/-- A place in a tree: the names that lead to it, the last one first, each with
the entries among which it is looked up. There may be no entry of the last
name. The root has no name. -/
abbrev Place := List (String × List (String × FileEntry))

/-- The entry at a place; the root is a directory. -/
def entry? (t : FileTree) : Place → Option FileEntry
  | [] => some (.directory t.entries)
  | (name, entries) :: _ => entries.lookup name

/-- Puts an entry among others, in place of the one of its name. -/
def putAmong (name : String) (e : FileEntry) :
    List (String × FileEntry) → List (String × FileEntry)
  | [] => [(name, e)]
  | x :: rest =>
    if x.1 = name then (name, e) :: rest else x :: putAmong name e rest

/-- The entry of the name is replaced, and all others stay. -/
theorem lookup_putAmong (name other : String) (e : FileEntry)
    (entries : List (String × FileEntry)) :
    (putAmong name e entries).lookup other =
      if other = name then some e else entries.lookup other := by
  induction entries with
  | nil => grind [putAmong]
  | cons x rest ih =>
    obtain ⟨key, old⟩ := x
    by_cases h : key = name
    · subst h
      grind [putAmong]
    · simp only [putAmong, h, if_false, List.lookup_cons, ih]
      grind

/-- Puts an entry at a place, and so changes the directories on the way to it,
from the innermost one on. The root stays a directory. -/
def put (t : FileTree) : Place → FileEntry → FileTree
  | [], .directory entries => { entries }
  | [], .file _ => t
  | (name, entries) :: place, e =>
    t.put place (.directory (putAmong name e entries))

/-- The longest name of an entry, in bytes. -/
def nameLimit : Nat := 255

/-- The longest path, in bytes. -/
def pathLimit : Nat := 4095

/-- Goes on from a place along the parts of a path. Every place that is left
has to be a directory. -/
def walk (t : FileTree) : Place → List String → Except OsError Place
  | place, [] => .ok place
  | place, s :: rest =>
    match t.entry? place with
    | none => .error .notFound
    | some (.file _) => .error .notDirectory
    | some (.directory entries) =>
      if s = "" ∨ s = "." then walk t place rest
      else if s = ".." then walk t place.tail rest
      else if nameLimit < s.utf8ByteSize then .error .nameTooLong
      else walk t ((s, entries) :: place) rest

/-- The parts of a path that can be looked up. -/
def parts (path : String) : Except OsError (List String) :=
  if path.toList.contains '\x00' then .error .nulInPath
  else if path = "" then .error .notFound
  else if pathLimit < path.utf8ByteSize then .error .nameTooLong
  else .ok (Path.segments path)

/-- The entry that a path leads to. -/
def find (t : FileTree) (path : String) : Except OsError FileEntry := do
  let place ← t.walk [] (← parts path)
  match t.entry? place with
  | some e => pure e
  | none => throw .notFound

/-- The bytes of a file. -/
def read (t : FileTree) (path : String) : Except OsError ByteArray := do
  match ← t.find path with
  | .file bytes => pure bytes
  | .directory _ => throw .isDirectory

/-- Where an entry is to be made: the place of its directory, its name, and
whether slashes follow the name. A path that ends in dots or that is the root
names no new entry. -/
def newPlace (t : FileTree) (path : String) :
    Except OsError (Option (Place × String × Bool)) := do
  let ss ← parts path
  match ss.reverse.dropWhile (· = "") with
  | [] => pure none
  | name :: outer =>
    let place ← t.walk [] (outer.reverse ++ [""])
    if name = "." ∨ name = ".." then pure none
    else pure (some (place, name, ss.getLast? = some ""))

/-- Writes a file. A path that can only name a directory is refused. -/
def write (t : FileTree) (path : String) (bytes : ByteArray) :
    Except OsError FileTree := do
  match ← t.newPlace path with
  | none => throw .isDirectory
  | some (directory, name, slashes) =>
    if slashes then throw .isDirectory
    else
      let place ← t.walk directory [name]
      match t.entry? place with
      | some (.directory _) => throw .isDirectory
      | _ => pure (t.put place (.file bytes))

/-- Makes one directory. -/
def makeDirectory (t : FileTree) (path : String) : Except OsError FileTree := do
  match ← t.newPlace path with
  | none => throw .alreadyExists
  | some (directory, name, _) =>
    let place ← t.walk directory [name]
    match t.entry? place with
    | some _ => throw .alreadyExists
    | none => pure (t.put place (.directory []))

/-- Whether a path leads to a directory. -/
def isDirectory (t : FileTree) (path : String) : Bool :=
  match t.find path with
  | .ok (.directory _) => true
  | _ => false

/-- Makes a directory and those that it is in, from the outermost one on,
at most `depth` of them. A directory that exists already is left alone. -/
def makeDirectories (path : String) :
    Nat → FileTree → Except OsError Unit × FileTree
  | 0, t => (.ok (), t)
  | depth + 1, t =>
    let make (t : FileTree) : Except OsError Unit × FileTree :=
      match t.makeDirectory path with
      | .ok t => (.ok (), t)
      | .error e => (if t.isDirectory path then .ok () else .error e, t)
    if path = "" then (.ok (), t)
    else
      match t.makeDirectory path with
      | .ok t => (.ok (), t)
      | .error e =>
        if e = .notFound then
          match Path.parent? path with
          | none => (.error e, t)
          | some parent =>
            match makeDirectories parent depth t with
            | (.ok (), t) => make t
            | (.error e, t) => (.error e, t)
        else make t

mutual

/-- The files of an entry with the names that lead to them, if those in `outer`
lead to the entry, the last one first. -/
def filesOf (outer : List String) :
    FileEntry → List (List String × ByteArray)
  | .file bytes => [(outer.reverse, bytes)]
  | .directory entries => filesAmong outer entries

/-- The files of some entries of a directory. -/
def filesAmong (outer : List String) :
    List (String × FileEntry) → List (List String × ByteArray)
  | [] => []
  | (name, e) :: rest => filesOf (name :: outer) e ++ filesAmong outer rest

end

/-- The files with the names that lead to them. -/
def files (t : FileTree) : List (List String × ByteArray) :=
  filesAmong [] t.entries

instance : FileSystem (StateM FileTree) where
  pathExists path := do
    let t ← get
    pure (t.find path).toOption.isSome
  readText path := do
    let t ← get
    match t.read path with
    | .error e => pure (.error (.os e))
    | .ok bytes =>
      match String.fromUTF8? bytes with
      | some text => pure (.ok text)
      | none => pure (.error .notText)
  makeDirectories path := fun t =>
    makeDirectories path (path.length + 1) t
  writeText path text := do
    let t ← get
    match t.write path text.toUTF8 with
    | .ok t => set t; pure (.ok ())
    | .error e => pure (.error e)

end FileTree

end MediaGraph

/-
Paths of files.

* `Path.segments`: the parts of a path between slashes.
* `Path.parent?`: the path of the directory that a path is in, in the spelling
  of the path.
-/

namespace MediaGraph.Path

/-- The parts of a path between slashes; they may be empty. -/
def segments (path : String) : List String :=
  (path.toList.splitOn '/').map String.ofList

/-- Drops slashes and dots that say nothing from the end of a path, which is
given from its end. A slash that is the whole path stays. -/
def trimTail : List Char → List Char
  | '/' :: c :: r => trimTail (c :: r)
  | '.' :: '/' :: r => trimTail ('/' :: r)
  | cs => cs

/-- The path of the directory that a path is in. The empty path and the root
are in none. -/
def parent? (path : String) : Option String :=
  match trimTail path.toList.reverse with
  | [] => none
  | ['/'] => none
  | cs =>
    some (String.ofList (trimTail (cs.dropWhile (· ≠ '/'))).reverse)

end MediaGraph.Path

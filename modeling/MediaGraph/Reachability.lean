/-
Reachability by depth-first search.

The search runs over numbered vertices `0, …, n - 1`. It keeps a stack of
vertices to look at and a table of the vertices that were expanded. No vertex
is expanded twice, so `n` expansions are enough, and after them all that can be
reached is on the stack.

* `Reachability.scan`: looks at the stack up to the next vertex to expand.
* `Reachability.search`: the search with a bounded number of expansions.
* `Reachability.reaches`: whether a vertex can be reached from another.
* `Reachability.Path`: the relation that the search decides.
-/

namespace MediaGraph.Reachability

/-- Takes vertices from the stack until one of them is `target` or has to be
expanded, and leaves the rest of the search to `resume`. A vertex outside the
table is never expanded. -/
def scan (successors : Nat → List Nat) (target : Nat)
    (resume : Array Bool → List Nat → Bool) (seen : Array Bool) :
    List Nat → Bool
  | [] => false
  | v :: rest =>
    if v = target then true
    else if seen[v]? = some false then
      resume (seen.setIfInBounds v true) (successors v ++ rest)
    else scan successors target resume seen rest

/-- Looks for `target` among the vertices of the stack and what can be reached
from them, with at most as many expansions as given. -/
def search (successors : Nat → List Nat) (target : Nat) :
    Nat → Array Bool → List Nat → Bool
  | 0, _, stack => stack.contains target
  | expansions + 1, seen, stack =>
    scan successors target (search successors target expansions) seen stack

/-- Whether `target` is `source` or can be reached from it, for `n` numbered
vertices. -/
def reaches (successors : Nat → List Nat) (n source target : Nat) : Bool :=
  search successors target n (Array.replicate n false) [source]

/-- A chain of successors that leads from `source` to `target`. -/
inductive Path (successors : Nat → List Nat) : Nat → Nat → Prop where
  | refl (v : Nat) : Path successors v v
  | step {u v w : Nat} : v ∈ successors u → Path successors v w →
      Path successors u w

end MediaGraph.Reachability

/-
The ready queue: a first-in first-out list threaded through its members.

Every node has a queue link, which says whether it waits and names its two
neighbours. Appending, taking the head and taking out a member from the middle
each touch the member and its neighbours only, and a node waits at most once.

* `QueueLink`: the link of one node.
* `ReadyQueue`: the links of all nodes with the two ends and the length.
* `ReadyQueue.pushBack`, `ReadyQueue.popFront`, `ReadyQueue.remove`,
  `ReadyQueue.clear`: the operations.
* `ReadyQueue.toList`: the members, from the head on.
* `ReadyQueue.isConsistent`: the links, the ends and the length agree.
-/
import MediaGraph.Arena

namespace MediaGraph

/-- The place of one node in the queue. -/
@[ext]
structure QueueLink where
  queued : Bool := false
  previous : Option NodeId := none
  next : Option NodeId := none
deriving DecidableEq, Repr

/-- The links of all nodes, holes for the removed ones, and the two ends. -/
structure ReadyQueue where
  links : Arena .node QueueLink := .empty
  first : Option NodeId := none
  last : Option NodeId := none
  length : Nat := 0
deriving DecidableEq, Repr

namespace ReadyQueue

/-! ### Nodes come and go -/

/-- Gives the next created node a link; it does not wait. -/
def register (q : ReadyQueue) : ReadyQueue :=
  { q with links := q.links.insert {} }

/-- Drops the link of a removed node. -/
def forget (q : ReadyQueue) (n : NodeId) : ReadyQueue :=
  { q with links := q.links.erase n }

/-! ### Waiting -/

/-- Whether a node waits. -/
def contains (q : ReadyQueue) (n : NodeId) : Bool :=
  match q.links.get? n with
  | some link => link.queued
  | none => false

/-- Whether no node waits. -/
def isEmpty (q : ReadyQueue) : Bool := q.first.isNone

/-- Makes the link after `n`, or the head if there is none, lead to `next`. -/
def setNext (q : ReadyQueue) (n next : Option NodeId) : ReadyQueue :=
  match n with
  | some n => { q with links := q.links.modify n ({ · with next := next }) }
  | none => { q with first := next }

/-- Makes the link before `n`, or the tail if there is none, lead to
`previous`. -/
def setPrevious (q : ReadyQueue) (n previous : Option NodeId) : ReadyQueue :=
  match n with
  | some n =>
    { q with links := q.links.modify n ({ · with previous := previous }) }
  | none => { q with last := previous }

/-- Appends a live node that does not wait yet, and says whether it did. -/
def pushBack (q : ReadyQueue) (n : NodeId) : Bool × ReadyQueue :=
  match q.links.get? n with
  | none => (false, q)
  | some link =>
    if link.queued then (false, q)
    else
      let entered := { q with
        links := q.links.modify n fun _ => ⟨true, q.last, none⟩
        length := q.length + 1 }
      (true, { entered.setNext q.last (some n) with last := some n })

/-- Takes a waiting node out from anywhere, and says whether it waited. -/
def remove (q : ReadyQueue) (n : NodeId) : Bool × ReadyQueue :=
  match q.links.get? n with
  | none => (false, q)
  | some link =>
    if link.queued then
      let left := { q with
        links := q.links.modify n fun _ => {}
        length := q.length - 1 }
      (true, (left.setNext link.previous link.next).setPrevious
        link.next link.previous)
    else (false, q)

/-- Takes out the node that waited longest. -/
def popFront (q : ReadyQueue) : Option NodeId × ReadyQueue :=
  match q.first with
  | none => (none, q)
  | some n => (some n, (q.remove n).2)

/-- Takes out every waiting node. -/
def clear (q : ReadyQueue) : ReadyQueue :=
  Nat.repeat (fun q => q.popFront.2) q.length q

/-! ### The members in order -/

/-- At most `fuel` members, following the links from `n` on. -/
def follow (links : Arena .node QueueLink) : Nat → Option NodeId → List NodeId
  | 0, _ => []
  | _, none => []
  | fuel + 1, some n =>
    n :: follow links fuel ((links.get? n).bind (·.next))

/-- The waiting nodes, the one that waited longest first. -/
def toList (q : ReadyQueue) : List NodeId := follow q.links q.length q.first

/-- Walks the queue from `n` on: `left` more members, each waiting, each
leading back to the one before it, the last of them at the tail. -/
def walk (q : ReadyQueue) : Nat → Option NodeId → Option NodeId → Bool
  | 0, previous, none => previous = q.last
  | _ + 1, _, none => false
  | 0, _, some _ => false
  | left + 1, previous, some n =>
    match q.links.get? n with
    | none => false
    | some link =>
      link.queued && link.previous = previous && q.walk left (some n) link.next

/-- The links, the two ends and the length agree. -/
def isConsistent (q : ReadyQueue) : Bool := q.walk q.length none q.first

end ReadyQueue

end MediaGraph

/-
The ready queue is a first-in first-out list without duplicates.

* `ReadyQueue.Operation`, `ReadyQueue.after`: what can be done with a queue, and what
  a sequence of operations makes of an empty one;
* `ReadyQueue.Fifo`: the queue holds a list of distinct live nodes, read off from
  its links in either direction;
* `Fifo.pushBack`, `Fifo.popFront`, `Fifo.remove`, `Fifo.clear`: what each operation
  does to that list;
* `ReadyQueue.fifo_after`: so it is after every sequence of operations.
-/
import Mathlib.Data.List.Induction
import MediaGraph.Proofs.Queue

namespace MediaGraph.ReadyQueue

/-! ### Operations -/

/-- What can be done with a queue. -/
inductive Operation where
  | pushBack (node : NodeId)
  | popFront
  | remove (node : NodeId)
  | clear
deriving DecidableEq, Repr

/-- The queue that an operation leaves behind. -/
def Operation.apply : Operation → ReadyQueue → ReadyQueue
  | pushBack n, q => (q.pushBack n).2
  | popFront, q => q.popFront.2
  | remove n, q => (q.remove n).2
  | clear, q => q.clear

/-- What operations make of an empty queue over some places, holes allowed. -/
def after (places : Arena .node QueueLink) (ops : List Operation) : ReadyQueue :=
  ops.foldl (fun q op => op.apply q) { links := places }

lemma after_concat (places : Arena .node QueueLink) (ops : List Operation) (op : Operation) :
    after places (ops ++ [op]) = op.apply (after places ops) := by
  simp [after]

/-! ### The list of a queue -/

/-- The queue holds the nodes of `L`, the first of them in front. -/
structure Fifo (live : NodeId → Prop) (q : ReadyQueue) (L : List NodeId) : Prop
    extends q.Lists L where
  /-- The live nodes are those that have a place. -/
  places : ∀ n, live n ↔ (q.links.get? n).isSome = true
  /-- Only live nodes are held. -/
  live : ∀ n ∈ L, live n
  /-- From the head on the links lead through the list, and then nowhere. -/
  forward : ∀ fuel, L.length ≤ fuel → follow q.links fuel q.first = L
  contains : ∀ n, q.contains n = true ↔ n ∈ L
  consistent : q.isConsistent = true

variable {live : NodeId → Prop} {q : ReadyQueue} {L : List NodeId} {n : NodeId}

/-- What the links describe is what the queue holds. -/
lemma Lists.fifo (h : q.Lists L) (hplaces : ∀ n, live n ↔ (q.links.get? n).isSome = true) :
    q.Fifo live L where
  toLists := h
  places := hplaces
  live n hn := by
    obtain ⟨link, hl, -⟩ := h.link_of_mem hn
    exact (hplaces n).mpr (by simp [hl])
  forward fuel hfuel := by
    rw [h.first]
    exact h.follow_eq (A := []) rfl hfuel
  contains _ := h.contains_iff
  consistent := h.isConsistent

/-- Nothing waits where no place was used. -/
lemma fifo_of_default {places : Arena .node QueueLink}
    (hplaces : ∀ n link, places.get? n = some link → link = {}) :
    Fifo (fun n => (places.get? n).isSome = true) { links := places } [] :=
  Lists.fifo
    { nodup := List.nodup_nil
      first := rfl
      last := rfl
      length := rfl
      inside := by simp
      outside := fun n link _ => hplaces n link } fun _ => Iff.rfl

namespace Fifo

/-- A live node that is not held is appended. -/
lemma pushBack (h : q.Fifo live L) (hn : live n) (hnL : n ∉ L) :
    (q.pushBack n).1 = true ∧ (q.pushBack n).2.Fifo live (L ++ [n]) := by
  obtain ⟨link, hl⟩ := Option.isSome_iff_exists.mp ((h.places n).mp hn)
  obtain ⟨hreply, hlists⟩ := h.toLists.pushBack hnL hl
  exact ⟨hreply, hlists.fifo fun m => by rw [isSome_get?_pushBack, h.places]⟩

/-- Any other node is refused. -/
lemma pushBack_refused (h : q.Fifo live L) (hn : ¬ (live n ∧ n ∉ L)) :
    q.pushBack n = (false, q) := by
  refine h.toLists.pushBack_eq_self ?_
  rw [h.places, Option.isSome_iff_ne_none] at hn
  tauto

/-- The first member leaves, if there is one. -/
lemma popFront (h : q.Fifo live L) :
    q.popFront.1 = L.head? ∧ q.popFront.2.Fifo live L.tail := by
  cases L with
  | nil =>
      rw [h.toLists.popFront_nil]
      exact ⟨rfl, h⟩
  | cons n L =>
      obtain ⟨hreply, hlists⟩ := h.toLists.popFront
      exact ⟨hreply, hlists.fifo fun m => by rw [isSome_get?_popFront, h.places]⟩

/-- A member leaves from anywhere, and nobody else does. -/
lemma remove (h : q.Fifo live L) (n : NodeId) :
    (q.remove n).1 = decide (n ∈ L) ∧ (q.remove n).2.Fifo live (L.erase n) := by
  by_cases hn : n ∈ L
  · obtain ⟨A, B, rfl⟩ := List.append_of_mem hn
    have hA : n ∉ A := by
      have := h.nodup
      grind
    obtain ⟨hreply, hlists⟩ := h.toLists.remove
    rw [List.erase_append_right _ hA, List.erase_cons_head, hreply]
    exact ⟨by simp, hlists.fifo fun m => by rw [isSome_get?_remove, h.places]⟩
  · rw [h.toLists.remove_eq_self hn, List.erase_of_not_mem hn]
    exact ⟨by simp [hn], h⟩

/-- Everybody leaves. -/
lemma clear (h : q.Fifo live L) : q.clear.Fifo live [] :=
  h.toLists.clear.fifo fun m => by rw [isSome_get?_clear, h.places]

/-- Every operation leaves a queue that holds some list. -/
lemma exists_apply (h : q.Fifo live L) (op : Operation) :
    ∃ L', (op.apply q).Fifo live L' := by
  cases op with
  | pushBack n =>
      by_cases hn : live n ∧ n ∉ L
      · exact ⟨_, (h.pushBack hn.1 hn.2).2⟩
      · exact ⟨L, by rwa [Operation.apply, h.pushBack_refused hn]⟩
  | popFront => exact ⟨_, h.popFront.2⟩
  | remove n => exact ⟨_, (h.remove n).2⟩
  | clear => exact ⟨_, h.clear⟩

end Fifo

/-! ### Every sequence of operations -/

/-- After any operations on an empty queue over unused places, holes allowed, the queue
holds a list of distinct live nodes. The next operation appends a live node that is
not held, and refuses any other one; it takes out the first member; it takes out a
member from anywhere, and says whether it was there; or it empties the queue. -/
theorem fifo_after (places : Arena .node QueueLink)
    (hplaces : ∀ n link, places.get? n = some link → link = {}) (ops : List Operation) :
    let live : NodeId → Prop := fun n => (places.get? n).isSome = true
    let q := after places ops
    ∃ L, q.Fifo live L ∧
      (∀ n, live n ∧ n ∉ L →
        (q.pushBack n).1 = true ∧ (q.pushBack n).2.Fifo live (L ++ [n])) ∧
      (∀ n, ¬ (live n ∧ n ∉ L) → q.pushBack n = (false, q)) ∧
      (q.popFront.1 = L.head? ∧ q.popFront.2.Fifo live L.tail) ∧
      (∀ n, (q.remove n).1 = decide (n ∈ L) ∧ (q.remove n).2.Fifo live (L.erase n)) ∧
      q.clear.Fifo live [] := by
  intro live q
  obtain ⟨L, hL⟩ : ∃ L, q.Fifo live L := by
    induction ops using List.reverseRecOn with
    | nil => exact ⟨[], fifo_of_default hplaces⟩
    | append_singleton ops op ih =>
        obtain ⟨L, hL⟩ := ih
        have := hL.exists_apply op
        rwa [← after_concat] at this
  exact ⟨L, hL, fun n hn => hL.pushBack hn.1 hn.2, fun n hn => hL.pushBack_refused hn,
    hL.popFront, hL.remove, hL.clear⟩

/-- Four places, one of them a hole: of three nodes that wait the middle one leaves. -/
theorem fifo_after_churn :
    let places : Arena .node QueueLink := ⟨#[some {}, none, some {}, some {}]⟩
    let ops : List Operation := [.pushBack ⟨3⟩, .pushBack ⟨1⟩, .pushBack ⟨0⟩,
      .pushBack ⟨2⟩, .remove ⟨0⟩, .pushBack ⟨3⟩]
    (∀ n link, places.get? n = some link → link = {}) ∧
      (after places ops).Fifo (fun n => (places.get? n).isSome = true) [⟨3⟩, ⟨2⟩] := by
  intro places ops
  have hplaces : ∀ n link, places.get? n = some link → link = {} := by
    intro n link h
    simpa [places] using Array.mem_of_getElem? (Arena.get?_eq_some_iff.mp h)
  have hlist : (after places ops).toList = [⟨3⟩, ⟨2⟩] := by decide +kernel
  obtain ⟨L, hL, -⟩ := fifo_after places hplaces ops
  obtain rfl : [⟨3⟩, ⟨2⟩] = L := hlist.symm.trans hL.toList_eq
  exact ⟨hplaces, hL⟩

end MediaGraph.ReadyQueue

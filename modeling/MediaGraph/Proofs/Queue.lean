/-
The ready queue as a list.

The links of the queue are threaded through its members.  What they say is one
duplicate-free list of live nodes, the one that waited longest first, and each
operation is the expected operation on that list.

* `ReadyQueue.Lists`: the links, the two ends and the length describe a list;
* `Lists.pushBack`, `Lists.remove`, `Lists.popFront`, `Lists.clear`: appending,
  taking out a member, taking the head, emptying;
* `Lists.contains_iff`, `Lists.toList_eq`, `Lists.isConsistent`: the members are
  the nodes that wait, the links lead from each of them to the next, and who walks
  along them finds nothing amiss;
* `Lists.ext`: the list and the nodes that have a place determine the queue.
-/
import Mathlib.Data.List.Nodup
import Mathlib.Order.Basic
import Mathlib.Tactic.Common
import MediaGraph.ReadyQueue

namespace MediaGraph

/-! ### Places in a list -/

/-- A place in a list with one more element at its end is that end or a place
in the list. -/
lemma concat_eq_append_cons {α : Type*} {L A B : List α} {x y : α}
    (h : L ++ [x] = A ++ y :: B) :
    (A = L ∧ y = x ∧ B = []) ∨ ∃ B', B = B' ++ [x] ∧ L = A ++ y :: B' := by
  rcases B.eq_nil_or_concat with rfl | ⟨B', b, rfl⟩
  · obtain ⟨rfl, hxy⟩ := List.append_inj' h rfl
    exact Or.inl ⟨rfl, by simpa using hxy.symm, rfl⟩
  · have h' : L ++ [x] = (A ++ y :: B') ++ [b] := by simpa using h
    obtain ⟨rfl, hxb⟩ := List.append_inj' h' rfl
    exact Or.inr ⟨B', by simp_all, rfl⟩

/-- A place in an append is a place in one of the two lists. -/
lemma append_eq_append_cons {α : Type*} {A B C D : List α} {x : α}
    (h : A ++ B = C ++ x :: D) :
    (∃ E, A = C ++ x :: E ∧ D = E ++ B) ∨ ∃ E, C = A ++ E ∧ B = E ++ x :: D := by
  rcases List.append_eq_append_iff.mp h with ⟨E, rfl, rfl⟩ | ⟨E, rfl, hE⟩
  · exact Or.inr ⟨E, rfl, rfl⟩
  · cases E with
    | nil => exact Or.inr ⟨[], by simp_all⟩
    | cons e E =>
        obtain ⟨rfl, rfl⟩ := List.cons_eq_cons.mp hE
        exact Or.inl ⟨E, rfl, rfl⟩

/-- The last element of a duplicate-free list has its place at the end. -/
lemma getLast?_append_cons_eq_self {α : Type*} {A B : List α} {x : α}
    (hnd : (A ++ x :: B).Nodup) :
    (A ++ x :: B).getLast? = some x ↔ B = [] := by
  constructor
  · intro h
    rcases B.eq_nil_or_concat with rfl | ⟨C, c, rfl⟩
    · rfl
    · have hc : (A ++ x :: C.concat c).getLast? = some c := by
        simp [List.getLast?_append, List.getLast?_cons]
      grind
  · rintro rfl
    simp

/-- The head of a duplicate-free list has its place at the front. -/
lemma head?_append_cons_eq_self {α : Type*} {A B : List α} {x : α}
    (hnd : (A ++ x :: B).Nodup) : (A ++ x :: B).head? = some x ↔ A = [] := by
  cases A <;> grind

namespace ReadyQueue

/-! ### Writing one link -/

lemma get?_setNext (q : ReadyQueue) (a x : Option NodeId) (m : NodeId) :
    (q.setNext a x).links.get? m =
      if a = some m then (q.links.get? m).map ({ · with next := x })
      else q.links.get? m := by
  cases a <;> simp [setNext, Arena.get?_modify]

lemma get?_setPrevious (q : ReadyQueue) (a x : Option NodeId) (m : NodeId) :
    (q.setPrevious a x).links.get? m =
      if a = some m then (q.links.get? m).map ({ · with previous := x })
      else q.links.get? m := by
  cases a <;> simp [setPrevious, Arena.get?_modify]

lemma first_setNext (q : ReadyQueue) (a x : Option NodeId) :
    (q.setNext a x).first = if a = none then x else q.first := by
  cases a <;> simp [setNext]

@[simp] lemma last_setNext (q : ReadyQueue) (a x : Option NodeId) :
    (q.setNext a x).last = q.last := by
  cases a <;> rfl

@[simp] lemma length_setNext (q : ReadyQueue) (a x : Option NodeId) :
    (q.setNext a x).length = q.length := by
  cases a <;> rfl

lemma last_setPrevious (q : ReadyQueue) (a x : Option NodeId) :
    (q.setPrevious a x).last = if a = none then x else q.last := by
  cases a <;> simp [setPrevious]

@[simp] lemma first_setPrevious (q : ReadyQueue) (a x : Option NodeId) :
    (q.setPrevious a x).first = q.first := by
  cases a <;> rfl

@[simp] lemma length_setPrevious (q : ReadyQueue) (a x : Option NodeId) :
    (q.setPrevious a x).length = q.length := by
  cases a <;> rfl

/-! ### The list that the links describe -/

/-- The queue describes the list `L`: the links of a member lead to its two
neighbours in `L`, and those of the other nodes lead nowhere. -/
structure Lists (q : ReadyQueue) (L : List NodeId) : Prop where
  nodup : L.Nodup
  first : q.first = L.head?
  last : q.last = L.getLast?
  length : q.length = L.length
  inside : ∀ A n B, L = A ++ n :: B →
    q.links.get? n = some ⟨true, A.getLast?, B.head?⟩
  outside : ∀ n link, n ∉ L → q.links.get? n = some link → link = {}

/-- Nothing waits in a fresh queue. -/
lemma lists_empty : ({} : ReadyQueue).Lists [] where
  nodup := List.nodup_nil
  first := rfl
  last := rfl
  length := rfl
  inside := by simp
  outside := by simp

namespace Lists

variable {q : ReadyQueue} {L : List NodeId} {n : NodeId}

lemma link_of_mem (h : q.Lists L) (hn : n ∈ L) :
    ∃ link, q.links.get? n = some link ∧ link.queued = true := by
  obtain ⟨A, B, rfl⟩ := List.append_of_mem hn
  exact ⟨_, h.inside A n B rfl, rfl⟩

/-- The nodes that wait are the members of the list. -/
lemma contains_iff (h : q.Lists L) : q.contains n = true ↔ n ∈ L := by
  by_cases hn : n ∈ L
  · obtain ⟨link, hl, hq⟩ := h.link_of_mem hn
    simp [ReadyQueue.contains, hl, hq, hn]
  · rcases hl : q.links.get? n with _ | link
    · simp [ReadyQueue.contains, hl, hn]
    · simp [ReadyQueue.contains, hl, hn, h.outside n link hn hl]

/-! ### Nodes come and go -/

/-- A created node does not wait. -/
lemma register (h : q.Lists L) : q.register.Lists L where
  nodup := h.nodup
  first := h.first
  last := h.last
  length := h.length
  inside A m B hL := by
    have hm := h.inside A m B hL
    have hlt := Arena.index_lt_size hm
    have hne : m ≠ q.links.fresh := by
      rintro rfl
      exact absurd hlt (Nat.lt_irrefl _)
    simpa [ReadyQueue.register, Arena.get?_insert, hne] using hm
  outside m link hm hl := by
    simp only [ReadyQueue.register, Arena.get?_insert] at hl
    split at hl
    · simpa using hl.symm
    · exact h.outside m link hm hl

/-! ### Waiting -/

/-- A node that is not live, or that waits already, is not appended. -/
lemma pushBack_eq_self (h : q.Lists L) (hn : n ∈ L ∨ q.links.get? n = none) :
    q.pushBack n = (false, q) := by
  rcases hn with hn | hn
  · obtain ⟨link, hl, hq⟩ := h.link_of_mem hn
    simp [ReadyQueue.pushBack, hl, hq]
  · simp [ReadyQueue.pushBack, hn]

/-- A live node that does not wait is appended. -/
lemma pushBack (h : q.Lists L) (hn : n ∉ L) {link : QueueLink}
    (hl : q.links.get? n = some link) :
    (q.pushBack n).1 = true ∧ (q.pushBack n).2.Lists (L ++ [n]) := by
  obtain rfl := h.outside n link hn hl
  refine ⟨by simp [ReadyQueue.pushBack, hl], ?_⟩
  simp only [ReadyQueue.pushBack, hl, Bool.false_eq_true, reduceIte]
  constructor
  · exact List.nodup_append.mpr ⟨h.nodup, by simp, by grind⟩
  · cases L <;> simp_all [first_setNext, h.first, h.last]
  · simp
  · simp [h.length]
  · intro A m B hL
    rcases concat_eq_append_cons hL with ⟨rfl, rfl, rfl⟩ | ⟨B', rfl, rfl⟩
    · -- the appended node itself
      have hlast : ¬ A.getLast? = some m :=
        fun he => hn (List.mem_of_getLast? he)
      simp [get?_setNext, h.last, hlast, hl]
    · -- an older member, whose successor is new if it was the last one
      have hm := h.inside A m B' rfl
      have hne : n ≠ m := by
        rintro rfl
        simp at hn
      simp only [get?_setNext, h.last, getLast?_append_cons_eq_self h.nodup,
        Arena.get?_modify, hne, hm, if_false]
      cases B' <;> simp
  · intro m link' hm hl'
    have hlast : ¬ q.last = some m := by
      rw [h.last]
      exact fun he => hm (by simp [List.mem_of_getLast? he])
    have hne : n ≠ m := by
      rintro rfl
      simp at hm
    exact h.outside m link' (by simp_all)
      (by simpa [get?_setNext, hlast, Arena.get?_modify, hne] using hl')

/-- A node that does not wait is not taken out. -/
lemma remove_eq_self (h : q.Lists L) (hn : n ∉ L) :
    q.remove n = (false, q) := by
  rcases hl : q.links.get? n with _ | link
  · simp [ReadyQueue.remove, hl]
  · simp [ReadyQueue.remove, hl, h.outside n link hn hl]

/-- A member is taken out from anywhere. -/
lemma remove {A B : List NodeId} (h : q.Lists (A ++ n :: B)) :
    (q.remove n).1 = true ∧ (q.remove n).2.Lists (A ++ B) := by
  have hl := h.inside A n B rfl
  have hnd := h.nodup
  have hA : n ∉ A := by grind
  have hB : n ∉ B := by grind
  refine ⟨by simp [ReadyQueue.remove, hl], ?_⟩
  simp only [ReadyQueue.remove, hl, reduceIte]
  constructor
  · grind
  · cases A <;> simp [first_setNext, h.first]
  · rcases B.eq_nil_or_concat with rfl | ⟨B', b, rfl⟩
    · simp [last_setPrevious]
    · cases B' <;> simp [last_setPrevious, h.last, List.getLast?_append]
  · simp [h.length]
  · intro C m D hL
    rcases append_eq_append_cons hL with ⟨E, rfl, rfl⟩ | ⟨E, rfl, rfl⟩
    · -- a member before the one that leaves
      have hm := h.inside C m (E ++ n :: B) (by simp)
      have hne : n ≠ m := by grind
      have hB' : ¬ B.head? = some m := fun he => by
        have := List.mem_of_head? he
        grind
      have hnd' : (C ++ m :: E).Nodup := by grind
      simp only [get?_setPrevious, get?_setNext, hB', Arena.get?_modify, hne,
        getLast?_append_cons_eq_self hnd', hm, if_false]
      cases E <;> simp
    · -- a member behind the one that leaves
      have hm := h.inside (A ++ n :: E) m D (by simp)
      have hne : n ≠ m := by grind
      have hA' : ¬ A.getLast? = some m := fun he => by
        have := List.mem_of_getLast? he
        grind
      have hnd' : (E ++ m :: D).Nodup := by grind
      simp only [get?_setPrevious, get?_setNext, hA', Arena.get?_modify, hne,
        head?_append_cons_eq_self hnd', hm, if_false]
      rcases E.eq_nil_or_concat with rfl | ⟨E', e, rfl⟩
      · simp
      · simp [List.getLast?_append, List.getLast?_cons]
  · intro m link hm hl'
    have hA' : ¬ A.getLast? = some m := fun he =>
      hm (by simp [List.mem_of_getLast? he])
    have hB' : ¬ B.head? = some m := fun he =>
      hm (by simp [List.mem_of_head? he])
    simp only [get?_setPrevious, get?_setNext, hA', hB', if_false,
      Arena.get?_modify] at hl'
    split at hl'
    · rename_i hnm
      subst hnm
      simpa [hl] using hl'.symm
    · exact h.outside m link (by grind) hl'

/-- The node that waited longest leaves first. -/
lemma popFront (h : q.Lists (n :: L)) :
    q.popFront.1 = some n ∧ q.popFront.2.Lists L := by
  have hfirst : q.first = some n := h.first
  simp only [ReadyQueue.popFront, hfirst, true_and]
  exact (remove (A := []) h).2

/-- Nobody leaves an empty queue. -/
lemma popFront_nil (h : q.Lists []) : q.popFront = (none, q) := by
  have hfirst : q.first = none := h.first
  simp [ReadyQueue.popFront, hfirst]

/-- Emptying the queue leaves nobody. -/
lemma clear (h : q.Lists L) : q.clear.Lists [] := by
  have key : ∀ (k : ℕ) (q : ReadyQueue) (L : List NodeId), q.Lists L →
      (Nat.repeat (fun q : ReadyQueue => q.popFront.2) k q).Lists
        (L.drop k) := by
    intro k
    induction k with
    | zero => exact fun q L h => h
    | succ k ih =>
        intro q L h
        have hk := ih q L h
        rw [← List.drop_drop, Nat.repeat]
        rcases hL : L.drop k with _ | ⟨m, M⟩
        · rw [hL] at hk
          simpa [popFront_nil hk] using hk
        · rw [hL] at hk
          exact (popFront hk).2
  have hdrop := key q.length q L h
  rw [h.length, List.drop_length, ← h.length] at hdrop
  exact hdrop

/-- From any place on the links lead through the rest of the list, and then
nowhere. -/
lemma follow_eq (h : q.Lists L) {A B : List NodeId} (hL : L = A ++ B) {fuel : Nat}
    (hfuel : B.length ≤ fuel) : follow q.links fuel B.head? = B := by
  induction B generalizing A fuel with
  | nil => cases fuel <;> rfl
  | cons n B ih =>
      cases fuel with
      | zero => simp at hfuel
      | succ fuel =>
          rw [List.head?_cons, follow, h.inside A n B hL, Option.bind_some,
            ih (A := A ++ [n]) (by simpa using hL) (by simpa using hfuel)]

/-- The list that the links describe is the one that they lead through. -/
lemma toList_eq (h : q.Lists L) : q.toList = L := by
  rw [toList, h.length, h.first]
  exact h.follow_eq (A := []) rfl (Nat.le_refl _)

/-- Who walks along the links from any place on meets the rest of the list, each
member leading back to the one before it, and ends at the tail. -/
lemma walk_eq (h : q.Lists L) {A B : List NodeId} (hL : L = A ++ B) :
    q.walk B.length A.getLast? B.head? = true := by
  induction B generalizing A with
  | nil =>
      obtain rfl : L = A := by simpa using hL
      simp [walk, h.last]
  | cons n B ih =>
      have hrest := ih (A := A ++ [n]) (by simpa using hL)
      rw [List.getLast?_concat] at hrest
      simp [walk, h.inside A n B hL, hrest]

/-- The links, the two ends and the length agree. -/
lemma isConsistent (h : q.Lists L) : q.isConsistent = true := by
  rw [ReadyQueue.isConsistent, h.length, h.first]
  exact h.walk_eq (A := []) rfl

end Lists

/-! ### The live nodes of the queue -/

@[simp] lemma isSome_get?_pushBack (q : ReadyQueue) (n m : NodeId) :
    ((q.pushBack n).2.links.get? m).isSome = (q.links.get? m).isSome := by
  unfold pushBack
  split
  · rfl
  · split
    · rfl
    · simp only [get?_setNext, Arena.get?_modify]
      split <;> split <;> simp

@[simp] lemma isSome_get?_remove (q : ReadyQueue) (n m : NodeId) :
    ((q.remove n).2.links.get? m).isSome = (q.links.get? m).isSome := by
  unfold remove
  split
  · rfl
  · split
    · simp only [get?_setPrevious, get?_setNext, Arena.get?_modify]
      split <;> split <;> split <;> simp
    · rfl

@[simp] lemma isSome_get?_popFront (q : ReadyQueue) (m : NodeId) :
    (q.popFront.2.links.get? m).isSome = (q.links.get? m).isSome := by
  unfold popFront
  split <;> simp

@[simp] lemma isSome_get?_clear (q : ReadyQueue) (m : NodeId) :
    (q.clear.links.get? m).isSome = (q.links.get? m).isSome := by
  unfold clear
  generalize q.length = k
  induction k with
  | zero => rfl
  | succ k ih => rw [Nat.repeat, isSome_get?_popFront, ih]

/-- A queue is determined by its list and by the nodes that have a place. -/
lemma Lists.ext {q r : ReadyQueue} {L : List NodeId} (hq : q.Lists L) (hr : r.Lists L)
    (hsize : q.links.size = r.links.size)
    (hplace : ∀ n, (q.links.get? n).isSome = (r.links.get? n).isSome) : q = r := by
  have hlinks : q.links = r.links := by
    refine Arena.ext_get? hsize fun n => ?_
    by_cases hn : n ∈ L
    · obtain ⟨A, B, rfl⟩ := List.append_of_mem hn
      rw [hq.inside A n B rfl, hr.inside A n B rfl]
    · have hp := hplace n
      rcases hqn : q.links.get? n with _ | link
      · rw [hqn, Option.isSome_none, eq_comm, Option.isSome_eq_false_iff,
          Option.isNone_iff_eq_none] at hp
        exact hp.symm
      · rw [hqn, Option.isSome_some, eq_comm, Option.isSome_iff_exists] at hp
        obtain ⟨link', hrn⟩ := hp
        rw [hrn, hq.outside n link hn hqn, hr.outside n link' hn hrn]
  obtain ⟨_, _, _, _⟩ := q
  obtain ⟨_, _, _, _⟩ := r
  rw [ReadyQueue.mk.injEq]
  exact ⟨hlinks, hq.first.trans hr.first.symm, hq.last.trans hr.last.symm,
    hq.length.trans hr.length.symm⟩

end ReadyQueue

end MediaGraph

/-
The search finds what can be reached.

* `Reachability.Fresh`: a chain of successors none of which was expanded;
* `Fresh.expand`: when a vertex is expanded, a fresh chain either avoids it or
  can be shortened to one that starts behind it;
* `Reachability.search_of_fresh`: the search finds the end of every fresh chain
  that starts on its stack, if it may expand all vertices that are left;
* `Reachability.reaches_iff`: the search decides `Reachability.Path`;
* `Reachability.Looks`: the search without a bound, one vertex after the other;
* `Reachability.exists_looks`: it ends, with the answer of the bounded search, after
  as many looks as the vertices have successors, and one.
-/
import Mathlib.Data.List.Basic
import Mathlib.Tactic.Common
import MediaGraph.Reachability

namespace MediaGraph.Reachability

variable {successors : Nat → List Nat} {target : Nat} {seen : Array Bool}

/-! ### Fresh chains -/

/-- A chain of successors from `v` to `target` none of which was expanded. -/
inductive Fresh (successors : Nat → List Nat) (target : Nat)
    (seen : Array Bool) : Nat → Prop where
  | refl : seen[target]? ≠ some true → Fresh successors target seen target
  | step {u v : Nat} : seen[u]? ≠ some true → v ∈ successors u →
      Fresh successors target seen v → Fresh successors target seen u

lemma Fresh.not_seen {v : Nat} (h : Fresh successors target seen v) :
    seen[v]? ≠ some true := by
  cases h <;> assumption

/-- Without expanded vertices every chain is fresh. -/
lemma Path.fresh {v : Nat} (h : Path successors v target)
    (hseen : ∀ u : Nat, seen[u]? ≠ some true) : Fresh successors target seen v := by
  induction h with
  | refl => exact .refl (hseen _)
  | step hv _ ih => exact .step (hseen _) hv ih

/-- When `u` is expanded, a fresh chain to another vertex avoids `u`, or one
that starts at a successor of `u` does. -/
lemma Fresh.expand {u v : Nat} (h : Fresh successors target seen v)
    (hu : u ≠ target) :
    Fresh successors target (seen.setIfInBounds u true) v ∨
      ∃ w ∈ successors u, Fresh successors target (seen.setIfInBounds u true) w := by
  have hother : ∀ {x : Nat}, x ≠ u → seen[x]? ≠ some true →
      (seen.setIfInBounds u true)[x]? ≠ some true := by
    intro x hx hs
    rwa [Array.getElem?_setIfInBounds_ne (Ne.symm hx)]
  induction h with
  | refl hs => exact Or.inl (.refl (hother (Ne.symm hu) hs))
  | @step x w hs hw _ ih =>
      rcases ih with ih | ih
      · by_cases hx : x = u
        · subst hx
          exact Or.inr ⟨w, hw, ih⟩
        · exact Or.inl (.step (hother hx hs) hw ih)
      · exact Or.inr ih

/-! ### The search -/

/-- Every vertex on the way to the result of a scan is a successor of one on the
stack. -/
lemma exists_path_of_scan {resume : Array Bool → List Nat → Bool}
    (hresume : ∀ seen stack, resume seen stack = true →
      ∃ v ∈ stack, Path successors v target)
    {stack : List Nat} (h : scan successors target resume seen stack = true) :
    ∃ v ∈ stack, Path successors v target := by
  induction stack with
  | nil => simp [scan] at h
  | cons v rest ih =>
      rw [scan] at h
      split at h
      · rename_i hv
        exact ⟨v, List.mem_cons_self .., hv ▸ .refl v⟩
      · split at h
        · obtain ⟨w, hw, hpath⟩ := hresume _ _ h
          rcases List.mem_append.mp hw with hw | hw
          · exact ⟨v, List.mem_cons_self .., .step hw hpath⟩
          · exact ⟨w, List.mem_cons_of_mem _ hw, hpath⟩
        · obtain ⟨w, hw, hpath⟩ := ih h
          exact ⟨w, List.mem_cons_of_mem _ hw, hpath⟩

/-- What the search finds can be reached from its stack. -/
lemma exists_path_of_search {expansions : Nat} {stack : List Nat}
    (h : search successors target expansions seen stack = true) :
    ∃ v ∈ stack, Path successors v target := by
  induction expansions generalizing seen stack with
  | zero => exact ⟨target, by simpa [search] using h, .refl target⟩
  | succ expansions ih => exact exists_path_of_scan (fun _ _ => ih) h

/-- The number of vertices of the table that were not expanded. -/
def left (seen : Array Bool) : Nat := seen.toList.count false

lemma left_set {v : Nat} (hv : seen[v]? = some false) :
    left (seen.setIfInBounds v true) + 1 = left seen := by
  obtain ⟨hlt, hval⟩ := Array.getElem?_eq_some_iff.mp hv
  have hpos : 0 < seen.toList.count false := by
    rw [List.count_pos_iff, ← hval]
    exact Array.mem_toList_iff.mpr (Array.getElem_mem hlt)
  rw [left, Array.toList_setIfInBounds, List.count_set (by simpa using hlt)]
  simp only [Array.getElem_toList, hval, left, beq_self_eq_true, if_true]
  rw [if_neg (by decide)]
  omega

/-- A vertex outside of the table has no successors. -/
def Bounded (successors : Nat → List Nat) (n : Nat) : Prop :=
  ∀ v, n ≤ v → successors v = []

/-- Where nothing is left to expand, a fresh chain ends where it starts. -/
lemma Fresh.eq_target {v : Nat} (hb : Bounded successors seen.size)
    (hv : seen[v]? ≠ some false) (h : Fresh successors target seen v) :
    v = target := by
  have hout : seen.size ≤ v := by
    by_contra hlt
    have hval : seen[v]? = some seen[v] := Array.getElem?_eq_getElem (by omega)
    rcases hbool : seen[v] with _ | _
    · exact hv (by rw [hval, hbool])
    · exact h.not_seen (by rw [hval, hbool])
  cases h with
  | refl => rfl
  | step _ hw => simp [hb v hout] at hw

/-- A scan finds the end of every fresh chain that starts on the stack, if the
rest of the search does. -/
lemma scan_of_fresh {resume : Array Bool → List Nat → Bool}
    (hb : Bounded successors seen.size)
    (hresume : ∀ {v : Nat}, seen[v]? = some false → ∀ stack : List Nat,
      (∃ w ∈ stack, Fresh successors target (seen.setIfInBounds v true) w) →
      resume (seen.setIfInBounds v true) stack = true)
    {stack : List Nat} (h : ∃ v ∈ stack, Fresh successors target seen v) :
    scan successors target resume seen stack = true := by
  induction stack with
  | nil => simp at h
  | cons u rest ih =>
      rw [scan]
      split
      · rfl
      · rename_i hu
        split
        · -- the chain avoids `u`, or its end can be reached from behind `u`
          rename_i hs
          refine hresume hs _ ?_
          obtain ⟨v, hv, hfresh⟩ := h
          rcases hfresh.expand hu with hfresh | ⟨w, hw, hfresh'⟩
          · rcases List.mem_cons.mp hv with rfl | hv
            · have hlt := (Array.getElem?_eq_some_iff.mp hs).1
              exact absurd (by simp [hlt]) hfresh.not_seen
            · exact ⟨v, List.mem_append_right _ hv, hfresh⟩
          · exact ⟨w, List.mem_append_left _ hw, hfresh'⟩
        · -- no fresh chain starts at `u`
          rename_i hs
          refine ih ?_
          obtain ⟨v, hv, hfresh⟩ := h
          rcases List.mem_cons.mp hv with rfl | hv
          · exact absurd (hfresh.eq_target hb hs) hu
          · exact ⟨v, hv, hfresh⟩

/-- The search finds the end of every fresh chain that starts on its stack, if
it may expand all vertices that are left. -/
lemma search_of_fresh {expansions : Nat} (hb : Bounded successors seen.size)
    (hleft : left seen ≤ expansions) {stack : List Nat}
    (h : ∃ v ∈ stack, Fresh successors target seen v) :
    search successors target expansions seen stack = true := by
  induction expansions generalizing seen stack with
  | zero =>
      obtain ⟨v, hv, hfresh⟩ := h
      have hnone : seen[v]? ≠ some false := by
        intro hs
        have := left_set hs
        omega
      obtain rfl := hfresh.eq_target hb hnone
      simpa [search] using hv
  | succ expansions ih =>
      refine scan_of_fresh hb (fun {v} hv stack hstack => ?_) h
      have := left_set hv
      exact ih (by simpa using hb) (by omega) hstack

/-- The search decides whether a vertex can be reached. -/
theorem reaches_iff {n source : Nat} (hb : Bounded successors n) :
    reaches successors n source target = true ↔ Path successors source target := by
  constructor
  · intro h
    obtain ⟨v, hv, hpath⟩ := exists_path_of_search h
    obtain rfl := List.mem_singleton.mp hv
    exact hpath
  · intro h
    have hseen : ∀ u : Nat, (Array.replicate n false)[u]? ≠ some true := by
      intro u
      simp [Array.getElem?_replicate]
    refine search_of_fresh (by simpa using hb) ?_
      ⟨source, List.mem_singleton_self _, h.fresh hseen⟩
    simp [left]

/-! ### How long the search takes -/

/-- A search that looks at so many vertices, one after the other from the top of its
stack, and then answers. Nothing bounds it but its own course. -/
inductive Looks (successors : Nat → List Nat) (target : Nat) :
    Nat → Array Bool → List Nat → Bool → Prop
  | exhausted (seen : Array Bool) : Looks successors target 0 seen [] false
  | found (seen : Array Bool) (rest : List Nat) :
      Looks successors target 1 seen (target :: rest) true
  | expand {k v : Nat} {seen : Array Bool} {rest : List Nat} {answer : Bool} :
      v ≠ target → seen[v]? = some false →
      Looks successors target k (seen.setIfInBounds v true) (successors v ++ rest) answer →
      Looks successors target (k + 1) seen (v :: rest) answer
  | pass {k v : Nat} {seen : Array Bool} {rest : List Nat} {answer : Bool} :
      v ≠ target → seen[v]? ≠ some false → Looks successors target k seen rest answer →
      Looks successors target (k + 1) seen (v :: rest) answer

/-- The successors of the vertices that were not expanded. -/
def pending (successors : Nat → List Nat) (seen : Array Bool) : List Nat :=
  ((List.range seen.size).filter fun v => seen[v]? = some false).flatMap successors

/-- Expanding a vertex moves its successors from the pending ones to the stack. -/
lemma length_pending_set (successors : Nat → List Nat) {v : Nat}
    (hv : seen[v]? = some false) :
    (pending successors (seen.setIfInBounds v true)).length + (successors v).length =
      (pending successors seen).length := by
  obtain ⟨hlt, -⟩ := Array.getElem?_eq_some_iff.mp hv
  obtain ⟨A, B, hAB⟩ := List.append_of_mem (List.mem_range.mpr hlt)
  have hnd : (A ++ v :: B).Nodup := hAB ▸ List.nodup_range
  have hother : ∀ C : List Nat, v ∉ C →
      (C.filter fun u => (seen.setIfInBounds v true)[u]? = some false) =
        C.filter fun u => seen[u]? = some false := by
    intro C hC
    refine List.filter_congr fun u hu => ?_
    have hne : v ≠ u := by
      rintro rfl
      exact hC hu
    rw [Array.getElem?_setIfInBounds_ne hne]
  have hgone : (seen.setIfInBounds v true)[v]? ≠ some false := by simp [hlt]
  simp only [pending, Array.size_setIfInBounds, hAB, List.filter_append, List.filter_cons,
    hother A (by grind), hother B (by grind), hv, hgone, decide_true, decide_false, if_true,
    Bool.false_eq_true, if_false, List.flatMap_append, List.flatMap_cons, List.length_append]
  omega

/-- The search of a stack ends, with the answer of the bounded search, after as many
looks as there are vertices on the stack and pending ones. -/
lemma exists_looks (successors : Nat → List Nat) (target : Nat) {expansions : Nat}
    (hleft : left seen ≤ expansions) (stack : List Nat) :
    ∃ k ≤ stack.length + (pending successors seen).length,
      Looks successors target k seen stack
        (search successors target expansions seen stack) := by
  induction expansions generalizing seen stack with
  | zero =>
      induction stack with
      | nil => exact ⟨0, Nat.zero_le _, .exhausted seen⟩
      | cons v rest ih =>
          have hnone : seen[v]? ≠ some false := by
            intro hs
            have := left_set hs
            omega
          by_cases hv : v = target
          · subst hv
            refine ⟨1, by simp only [List.length_cons]; omega, ?_⟩
            simpa [search] using Looks.found seen rest
          · obtain ⟨k, hk, hlooks⟩ := ih
            refine ⟨k + 1, by simp only [List.length_cons]; omega, .pass hv hnone ?_⟩
            simpa [search, Ne.symm hv] using hlooks
  | succ expansions ih =>
      rw [search]
      induction stack with
      | nil => exact ⟨0, Nat.zero_le _, .exhausted seen⟩
      | cons v rest ih' =>
          rw [scan]
          split
          · rename_i hv
            subst hv
            exact ⟨1, by simp only [List.length_cons]; omega, .found seen rest⟩
          · rename_i hv
            split
            · rename_i hs
              have hset := left_set hs
              have hpending := length_pending_set successors hs
              have hfewer : left (seen.setIfInBounds v true) ≤ expansions := by omega
              obtain ⟨k, hk, hlooks⟩ := ih hfewer (successors v ++ rest)
              rw [List.length_append] at hk
              exact ⟨k + 1, by simp only [List.length_cons]; omega, .expand hv hs hlooks⟩
            · rename_i hs
              obtain ⟨k, hk, hlooks⟩ := ih'
              exact ⟨k + 1, by simp only [List.length_cons]; omega, .pass hv hs hlooks⟩

/-- The search for a way from one vertex to another ends after as many looks as the
vertices have successors, and one. -/
theorem exists_looks_reaches (successors : Nat → List Nat) (n source target : Nat) :
    ∃ k ≤ ((List.range n).flatMap successors).length + 1,
      Looks successors target k (.replicate n false) [source]
        (reaches successors n source target) := by
  have hleft : left (.replicate n false) ≤ n := by simp [left]
  obtain ⟨k, hk, hlooks⟩ := exists_looks successors target hleft [source]
  have hpending : pending successors (.replicate n false) =
      (List.range n).flatMap successors := by
    rw [pending, Array.size_replicate, List.filter_eq_self.mpr]
    intro v hv
    simp [List.mem_range.mp hv]
  rw [hpending, List.length_singleton, Nat.add_comm] at hk
  exact ⟨k, hk, hlooks⟩

end MediaGraph.Reachability

/-
What holds of every accepted description.

* `Description.Linked`, `Description.Acyclic`: the nodes that the links of a
  description join, and that they close no cycle;
* `Description.Allows`: an activation that a script of the description may
  perform;
* `Description.Accepted`: what an accepted description says about its nodes;
* `Catalogue.acyclic`: the links of the bundled descriptions close no cycle.
-/
import Mathlib.Data.List.Basic
import Mathlib.Logic.Relation
import Mathlib.Tactic.Common
import MediaGraph.Description.Catalogue
import MediaGraph.Description.Validation

namespace MediaGraph

/-! ### Settings -/

lemma allBelow_iff {p : Nat → Bool} {i n : Nat} :
    allBelow p i n = true ↔ ∀ j, i ≤ j → j < n → p j = true := by
  fun_induction allBelow p i n with
  | case1 i hi ih =>
      rw [Bool.and_eq_true, ih]
      constructor
      · rintro ⟨h0, h⟩ j hj hn
        rcases Nat.eq_or_lt_of_le hj with rfl | hlt
        · exact h0
        · exact h j hlt hn
      · exact fun h => ⟨h i (Nat.le_refl i) hi, fun j hj => h j (by omega)⟩
  | case2 i hi => exact ⟨fun _ j hj hn => by omega, fun _ => rfl⟩

/-- How many counted inputs let a node run. -/
def NodeSpec.requiredCount (spec : NodeSpec) : Nat :=
  spec.requiredIn.getD
    ((List.range spec.inputCount).countP fun i => !spec.isOptional i)

/-- A node with inputs requires at least one of them. -/
lemma NodeSpec.requiredCount_pos {spec : NodeSpec} (h : spec.requiredFlaws = [])
    (hin : 0 < spec.inputCount) : 0 < spec.requiredCount := by
  rcases hk : spec.requiredIn with _ | k
  · simp only [requiredFlaws, hk, hin, true_and, ite_eq_right_iff, List.cons_ne_self,
      imp_false, allBelow_iff] at h
    simp only [requiredCount, hk, Option.getD_none]
    push Not at h
    obtain ⟨j, -, hj, ho⟩ := h
    exact List.countP_pos_iff.mpr ⟨j, by simpa using hj, by simpa using ho⟩
  · simp only [requiredFlaws, hk] at h
    simp only [requiredCount, hk, Option.getD_some]
    grind

/-- No node requires more inputs than it has. -/
lemma NodeSpec.requiredCount_le {spec : NodeSpec} (h : spec.requiredFlaws = []) :
    spec.requiredCount ≤ spec.inputCount := by
  rcases hk : spec.requiredIn with _ | k
  · simpa [requiredCount, hk] using
      (List.countP_le_length (l := List.range spec.inputCount)
        (p := fun i => !spec.isOptional i))
  · simp only [requiredFlaws, hk] at h
    simp only [requiredCount, hk, Option.getD_some]
    grind

/-! ### Links and activations -/

namespace Description

/-- A link of the description leads from node `i` to node `j`. -/
def Linked (d : Description) (i j : Nat) : Prop :=
  ∃ l ∈ d.links, ∃ p q, d.resolve .output l.source = .ok p ∧
    d.resolve .input l.target = .ok q ∧ p.node = i ∧ q.node = j

/-- No way along links leads from a node back to it. -/
def Acyclic (d : Description) : Prop :=
  ∀ i, ¬ Relation.TransGen d.Linked i i

/-- Whether a node is a sink of the description. -/
def isSink (d : Description) (n : NodeId) : Bool :=
  d.nodes[n.index]?.any (·.kind = .sink)

/-- Links that lead from earlier to later nodes close no cycle. -/
lemma acyclic_of_lt {d : Description} (h : ∀ i j, d.Linked i j → i < j) :
    d.Acyclic := by
  intro i hi
  have hlt : ∀ {j}, Relation.TransGen d.Linked i j → i < j := by
    intro j hj
    induction hj with
    | single hij => exact h _ _ hij
    | tail _ hjk ih => exact Nat.lt_trans ih (h _ _ hjk)
  exact Nat.lt_irrefl i (hlt hi)

lemma isSink_iff {d : Description} {n : NodeId} :
    d.isSink n = true ↔
      ∃ spec, d.nodes[n.index]? = some spec ∧ spec.kind = .sink := by
  rw [isSink]
  rcases d.nodes[n.index]? with _ | spec <;> simp

/-- A script of the description may activate a node in this mode. -/
def Allows (d : Description) (mode : Mode) (i : Nat) : Prop :=
  ∃ spec, d.nodes[i]? = some spec ∧ stepFlaw? ⟨mode, spec.name, 1⟩ spec = none

/-- What an accepted description says about its nodes. -/
structure Accepted (d : Description) : Prop where
  name : ∀ {i : Nat} {spec : NodeSpec}, d.nodes[i]? = some spec → isBlankName spec.name = false
  unique : ∀ {i j : Nat} {spec spec' : NodeSpec}, d.nodes[i]? = some spec →
    d.nodes[j]? = some spec' → j < i → spec'.name ≠ spec.name
  settings : ∀ {i : Nat} {spec : NodeSpec}, d.nodes[i]? = some spec →
    spec.settingFlaws = []

variable {d : Description}

lemma accepted_of_validate (h : d.validate = .ok ()) : d.Accepted := by
  have hflaws : d.flaws = [] := by
    rw [validate] at h
    split at h
    · assumption
    · cases h
  have hnodes : ∀ {i : Nat} {spec : NodeSpec}, d.nodes[i]? = some spec →
      d.nameFlaws i spec = [] ∧ spec.settingFlaws = [] := by
    intro i spec hi
    simp only [flaws, List.append_eq_nil_iff, nodeFlaws,
      List.flatMap_eq_nil_iff] at hflaws
    have := hflaws.1.1 (spec, i) (List.mem_zipIdx_iff_getElem?.mpr hi)
    simpa using this
  refine ⟨fun hi => ?_, fun {i j spec spec'} hi hj hlt he => ?_, fun hi =>
    (hnodes hi).2⟩
  · have := (hnodes hi).1
    rw [nameFlaws] at this
    grind
  · have hn := (hnodes hi).1
    rw [nameFlaws] at hn
    split_ifs at hn with hblank hdup
    refine hdup (List.any_eq_true.mpr ⟨spec', ?_, by simpa using he⟩)
    rw [List.mem_take_iff_getElem]
    obtain ⟨hlt', rfl⟩ := List.getElem?_eq_some_iff.mp hj
    exact ⟨j, by omega, rfl⟩

namespace Accepted

variable {i : Nat} {spec : NodeSpec}

/-- A name stands for the node that bears it. -/
lemma findIdx? (h : d.Accepted) (hi : d.nodes[i]? = some spec) :
    d.nodes.findIdx? (·.name = spec.name) = some i := by
  obtain ⟨hlt, rfl⟩ := List.getElem?_eq_some_iff.mp hi
  rw [List.findIdx?_eq_some_iff_getElem]
  refine ⟨hlt, by simp, fun j hj => ?_⟩
  have hj' : d.nodes[j]? = some d.nodes[j] := List.getElem?_eq_getElem _
  simpa using h.unique hi hj' hj

/-- A node with inputs requires at least one of them. -/
lemma requiredCount_pos (h : d.Accepted) (hi : d.nodes[i]? = some spec)
    (hin : 0 < spec.inputCount) : 0 < spec.requiredCount := by
  have hs := h.settings hi
  simp only [NodeSpec.settingFlaws, List.append_eq_nil_iff] at hs
  exact NodeSpec.requiredCount_pos hs.2 hin

/-- A mixer has inputs. -/
lemma inputCount_pos (h : d.Accepted) (hi : d.nodes[i]? = some spec)
    (hk : spec.kind = .mixer) : 0 < spec.inputCount := by
  have hs := h.settings hi
  simp only [NodeSpec.settingFlaws, NodeSpec.inputFlaws,
    List.append_eq_nil_iff] at hs
  grind

end Accepted

end Description

/-- The links of the bundled descriptions close no cycle. -/
lemma Catalogue.acyclic {d : Description} (hd : d ∈ Catalogue.all) :
    d.Acyclic := by
  have hall : ∀ d ∈ Catalogue.all, ∀ l ∈ d.links,
      ((d.resolve .output l.source).toOption.any fun p =>
        (d.resolve .input l.target).toOption.any fun q =>
          decide (p.node < q.node)) = true := by decide +kernel
  refine Description.acyclic_of_lt fun i j => ?_
  rintro ⟨l, hl, p, q, hp, hq, rfl, rfl⟩
  simpa [hp, hq, Except.toOption] using hall d hd l hl

end MediaGraph

/-
Which descriptions are accepted.

* `NodeSpec.Fits`: the settings of a node fit its kind;
* `Description.Names`, `Description.Joins`: the port that a reference names, and
  the nodes that the links join;
* `Description.Valid`: what a description has to say in order to be accepted,
  without a word about how it is checked;
* `Description.linkFlaws_eq_nil_iff`: links checked one after the other, each
  against those before it, close no cycle together;
* `Description.validate_iff`: the accepted descriptions are the valid ones.
-/
import Mathlib.Data.List.Forall2
import Mathlib.Data.List.TakeWhile
import MediaGraph.Proofs.Accepted
import MediaGraph.Proofs.Search

namespace MediaGraph

/-! ### Names -/

lemma Text.trim_eq_nil_iff {cs : List Char} :
    Text.trim cs = [] ↔ ∀ c ∈ cs, Text.isBlank c = true := by
  have hend : ∀ {l : List Char}, Text.trimEnd l = [] ↔ ∀ c ∈ l, Text.isBlank c = true := by
    intro l
    simp [Text.trimEnd, List.dropWhile_eq_nil_iff]
  rw [Text.trim, hend]
  constructor
  · intro h c hc
    -- the first character that is not blank would be left
    have hnil : cs.dropWhile Text.isBlank = [] := by
      by_contra hne
      have hhead := List.head_dropWhile_not Text.isBlank hne
      rw [h _ (List.head_mem hne)] at hhead
      cases hhead
    exact List.dropWhile_eq_nil_iff.mp hnil c hc
  · exact fun h c hc => h c (List.dropWhile_subset _ hc)

lemma isBlankName_eq_true {name : String} :
    isBlankName name = true ↔ Text.trim name.toList = [] := by
  rw [isBlankName, List.all_eq_true, Text.trim_eq_nil_iff]

/-! ### Settings -/

namespace NodeSpec

/-- The settings of a node fit its kind. -/
structure Fits (n : NodeSpec) : Prop where
  inputs : n.inputs.isSome = true → n.kind = .mixer
  mixer : n.kind = .mixer → 1 ≤ n.inputCount
  buffers : ∀ b, n.buffers = some b → n.kind ≠ .sink ∧ 1 ≤ b ∧ b ≤ 64
  optional : ∀ i ∈ n.optionalInputs, i < n.inputCount
  required : ∀ k, n.requiredIn = some k →
    0 < n.inputCount ∧ 1 ≤ k ∧ k ≤ n.inputCount
  someRequired : n.requiredIn = none → 0 < n.inputCount →
    ∃ i < n.inputCount, i ∉ n.optionalInputs

lemma inputFlaws_eq_nil_iff {n : NodeSpec} : n.inputFlaws = [] ↔
    (n.inputs.isSome = true → n.kind = .mixer) ∧
      (n.kind = .mixer → 1 ≤ n.inputCount) := by
  simp only [inputFlaws, List.append_eq_nil_iff, ite_eq_right_iff,
    List.cons_ne_self, imp_false, not_and, not_not]
  refine and_congr Iff.rfl (forall_congr' fun _ => ?_)
  omega

lemma bufferFlaws_eq_nil_iff {n : NodeSpec} : n.bufferFlaws = [] ↔
    ∀ b, n.buffers = some b → n.kind ≠ .sink ∧ 1 ≤ b ∧ b ≤ 64 := by
  have hlimit : poolLimit = 64 := rfl
  rcases hb : n.buffers with _ | b
  · simp [bufferFlaws, hb]
  · simp only [bufferFlaws, hb, Option.some.injEq, forall_eq', hlimit]
    split
    · simp_all
    · split
      · simp only [List.cons_ne_self, false_iff]
        omega
      · simp only [true_iff]
        exact ⟨by assumption, by omega⟩

lemma optionalFlaws_eq_nil_iff {n : NodeSpec} : n.optionalFlaws = [] ↔
    ∀ i ∈ n.optionalInputs, i < n.inputCount := by
  simp [optionalFlaws, List.filter_eq_nil_iff]

lemma requiredFlaws_eq_nil_iff {n : NodeSpec} : n.requiredFlaws = [] ↔
    (∀ k, n.requiredIn = some k → 0 < n.inputCount ∧ 1 ≤ k ∧ k ≤ n.inputCount) ∧
      (n.requiredIn = none → 0 < n.inputCount →
        ∃ i < n.inputCount, i ∉ n.optionalInputs) := by
  rcases hk : n.requiredIn with _ | k
  · simp [requiredFlaws, hk, allBelow_iff, isOptional]
  · simp only [requiredFlaws, hk, Option.some.injEq, forall_eq', reduceCtorEq,
      false_imp_iff, and_true]
    split
    · simp_all
    · split
      · simp only [List.cons_ne_self, false_iff]
        omega
      · simp only [true_iff]
        omega

/-- No setting of a node is flawed exactly if all of them fit. -/
lemma settingFlaws_eq_nil_iff {n : NodeSpec} : n.settingFlaws = [] ↔ n.Fits := by
  simp only [settingFlaws, List.append_eq_nil_iff, inputFlaws_eq_nil_iff,
    bufferFlaws_eq_nil_iff, optionalFlaws_eq_nil_iff, requiredFlaws_eq_nil_iff]
  constructor
  · rintro ⟨⟨⟨⟨hin, hmix⟩, hbuf⟩, hopt⟩, hreq, hsome⟩
    exact ⟨hin, hmix, hbuf, hopt, hreq, hsome⟩
  · rintro ⟨hin, hmix, hbuf, hopt, hreq, hsome⟩
    exact ⟨⟨⟨⟨hin, hmix⟩, hbuf⟩, hopt⟩, hreq, hsome⟩

end NodeSpec

namespace Description

variable {d : Description}

/-! ### Nodes -/

/-- The nodes of a description are sound one by one exactly if it is accepted so
far. -/
lemma nodeFlaws_eq_nil_iff : d.nodeFlaws = [] ↔ d.Accepted := by
  have hsplit : d.nodeFlaws = [] ↔ ∀ (i : ℕ) (spec : NodeSpec),
      d.nodes[i]? = some spec → d.nameFlaws i spec = [] ∧ spec.settingFlaws = [] := by
    simp only [nodeFlaws, List.flatMap_eq_nil_iff, Prod.forall,
      List.mem_zipIdx_iff_getElem?, List.append_eq_nil_iff, List.map_eq_nil_iff]
    exact ⟨fun h i spec => h spec i, fun h spec i => h i spec⟩
  have hname : ∀ (i : ℕ) (spec : NodeSpec), d.nameFlaws i spec = [] ↔
      isBlankName spec.name = false ∧ ∀ (j : ℕ) (spec' : NodeSpec),
        d.nodes[j]? = some spec' → j < i → spec'.name ≠ spec.name := by
    intro i spec
    have hdup : (d.nodes.take i).any (·.name = spec.name) = true ↔
        ∃ (j : ℕ) (spec' : NodeSpec), d.nodes[j]? = some spec' ∧ j < i ∧
          spec'.name = spec.name := by
      simp only [List.any_eq_true, List.mem_iff_getElem?, List.getElem?_take,
        decide_eq_true_eq]
      grind
    rw [nameFlaws]
    split
    · simp_all
    · split
      · rename_i h
        obtain ⟨j, spec', hj, hlt, he⟩ := hdup.mp h
        simp only [List.cons_ne_self, false_iff, not_and]
        exact fun _ hall => hall j spec' hj hlt he
      · rename_i hblank h
        rw [hdup] at h
        push Not at h
        exact iff_of_true rfl ⟨by simpa using hblank, h⟩
  rw [hsplit]
  constructor
  · intro h
    exact ⟨fun hi => ((hname _ _).mp (h _ _ hi).1).1,
      fun hi hj hlt => ((hname _ _).mp (h _ _ hi).1).2 _ _ hj hlt,
      fun hi => (h _ _ hi).2⟩
  · intro h i spec hi
    exact ⟨(hname i spec).mpr
      ⟨h.name hi, fun j spec' hj hlt => h.unique hi hj hlt⟩, h.settings hi⟩

/-- So far a description is accepted whose nodes have names of their own and
settings that fit. -/
lemma accepted_iff : d.Accepted ↔
    (∀ n ∈ d.nodes, Text.trim n.name.toList ≠ []) ∧
      (d.nodes.map (·.name)).Nodup ∧ ∀ n ∈ d.nodes, n.Fits := by
  have hnodup : (d.nodes.map (·.name)).Nodup ↔
      ∀ {i j : ℕ} {spec spec' : NodeSpec}, d.nodes[i]? = some spec →
        d.nodes[j]? = some spec' → j < i → spec'.name ≠ spec.name := by
    rw [List.nodup_iff_pairwise_ne, List.pairwise_map, List.pairwise_iff_getElem]
    constructor
    · intro h i j spec spec' hi hj hlt
      obtain ⟨hi', rfl⟩ := List.getElem?_eq_some_iff.mp hi
      obtain ⟨hj', rfl⟩ := List.getElem?_eq_some_iff.mp hj
      exact h j i hj' hi' hlt
    · intro h j i hj hi hlt
      exact h (List.getElem?_eq_getElem hi) (List.getElem?_eq_getElem hj) hlt
  have hname : ∀ n : NodeSpec,
      isBlankName n.name = false ↔ Text.trim n.name.toList ≠ [] := by
    intro n
    rw [← Bool.not_eq_true, isBlankName_eq_true]
  constructor
  · intro h
    refine ⟨fun n hn => ?_, hnodup.mpr h.unique, fun n hn => ?_⟩
    · obtain ⟨i, hi⟩ := List.mem_iff_getElem?.mp hn
      exact (hname n).mp (h.name hi)
    · obtain ⟨i, hi⟩ := List.mem_iff_getElem?.mp hn
      exact NodeSpec.settingFlaws_eq_nil_iff.mp (h.settings hi)
  · rintro ⟨hblank, hunique, hfits⟩
    refine ⟨fun hi => ?_, hnodup.mp hunique, fun hi => ?_⟩
    · exact (hname _).mpr (hblank _ (List.mem_of_getElem? hi))
    · exact NodeSpec.settingFlaws_eq_nil_iff.mpr (hfits _ (List.mem_of_getElem? hi))

/-! ### References -/

/-- A reference names the port at a place: it can be read, a node bears its name
and has so many ports of the direction. -/
def Names (d : Description) (direction : Direction) (reference : String)
    (place : PortPlace) : Prop :=
  ∃ r n, PortRef.parse? reference = some r ∧ d.nodes[place.node]? = some n ∧
    n.name = r.node ∧ place.index = r.index ∧ r.index < n.portCount direction

/-- A name stands for the node that bears it. -/
lemma Accepted.indexOf?_eq_some (h : d.Accepted) {name : String} {i : ℕ} :
    d.indexOf? name = some i ↔ ∃ n, d.nodes[i]? = some n ∧ n.name = name := by
  constructor
  · intro hi
    rw [indexOf?] at hi
    split at hi
    · cases hi
    · obtain ⟨hlt, hname, -⟩ := List.findIdx?_eq_some_iff_getElem.mp hi
      exact ⟨_, List.getElem?_eq_getElem hlt, by simpa using hname⟩
  · rintro ⟨n, hi, rfl⟩
    rw [indexOf?, h.name hi]
    exact h.findIdx? hi

/-- Where all names differ, a reference stands for the port that it names. -/
lemma Accepted.resolve_eq_ok (h : d.Accepted) {direction : Direction}
    {reference : String} {place : PortPlace} :
    d.resolve direction reference = .ok place ↔
      d.Names direction reference place := by
  constructor
  · intro hres
    rw [resolve] at hres
    split at hres
    · cases hres
    · rename_i r hr
      split at hres
      · cases hres
      · rename_i i hi
        obtain ⟨n, hn, hname⟩ := h.indexOf?_eq_some.mp hi
        simp only [hn] at hres
        split at hres
        · cases hres
          exact ⟨r, n, hr, hn, hname, rfl, by assumption⟩
        · cases hres
  · rintro ⟨r, n, hr, hn, hname, hindex, hlt⟩
    rw [resolve, hr]
    rw [← hindex] at hlt
    simp only [h.indexOf?_eq_some.mpr ⟨n, hn, hname⟩, hn, ← hindex, hlt, if_true]

end Description

/-! ### Links one after the other -/

/-- Two ports that a link joins. -/
abbrev Ends := PortPlace × PortPlace

/-- Some link leads from node `i` to node `j`. -/
def Edge (links : List Ends) (i j : ℕ) : Prop :=
  ∃ e ∈ links, e.1.node = i ∧ e.2.node = j

lemma edge_concat {links : List Ends} {e : Ends} {i j : ℕ} :
    Edge (links ++ [e]) i j ↔ Edge links i j ∨ (e.1.node = i ∧ e.2.node = j) := by
  simp only [Edge, List.mem_append, List.mem_singleton]
  grind

/-- Links that use no port twice, join no node to itself and close no cycle,
unless cycles are allowed. -/
structure LinksFit (allowCycles : Bool) (links : List Ends) : Prop where
  outputs : (links.map Prod.fst).Nodup
  inputs : (links.map Prod.snd).Nodup
  noLoop : ∀ e ∈ links, e.1.node ≠ e.2.node
  acyclic : allowCycles = true ∨ ∀ i, ¬ Relation.TransGen (Edge links) i i

/-- One more link may be added to others. -/
structure Admits (allowCycles : Bool) (links : List Ends) (e : Ends) : Prop where
  output : e.1 ∉ links.map Prod.fst
  input : e.2 ∉ links.map Prod.snd
  noLoop : e.1.node ≠ e.2.node
  noWay : allowCycles = true ∨
    ¬ Relation.ReflTransGen (Edge links) e.2.node e.1.node

/-- A way over one more link either avoids it or leads over both its ends. -/
lemma transGen_edge_concat {links : List Ends} {e : Ends} {i j : ℕ}
    (h : Relation.TransGen (Edge (links ++ [e])) i j) :
    Relation.TransGen (Edge links) i j ∨
      (Relation.ReflTransGen (Edge links) i e.1.node ∧
        Relation.ReflTransGen (Edge links) e.2.node j) := by
  induction h with
  | single hij =>
      rcases edge_concat.mp hij with hij | ⟨rfl, rfl⟩
      · exact Or.inl (.single hij)
      · exact Or.inr ⟨.refl, .refl⟩
  | tail _ hjk ih =>
      rcases edge_concat.mp hjk with hjk | ⟨rfl, rfl⟩
      · rcases ih with ih | ⟨ih₁, ih₂⟩
        · exact Or.inl (ih.tail hjk)
        · exact Or.inr ⟨ih₁, ih₂.tail hjk⟩
      · rcases ih with ih | ⟨ih₁, -⟩
        · exact Or.inr ⟨ih.to_reflTransGen, .refl⟩
        · exact Or.inr ⟨ih₁, .refl⟩

/-- One more link closes a cycle exactly if a way leads from its target back to
its source. -/
lemma acyclic_edge_concat {links : List Ends} {e : Ends}
    (h : ∀ i, ¬ Relation.TransGen (Edge links) i i) :
    (∀ i, ¬ Relation.TransGen (Edge (links ++ [e])) i i) ↔
      ¬ Relation.ReflTransGen (Edge links) e.2.node e.1.node := by
  constructor
  · intro hall hway
    have hback : Relation.ReflTransGen (Edge (links ++ [e])) e.2.node e.1.node :=
      Relation.ReflTransGen.mono
        (fun _ _ hij => edge_concat.mpr (Or.inl hij)) _ _ hway
    exact hall e.1.node (.head' (edge_concat.mpr (Or.inr ⟨rfl, rfl⟩)) hback)
  · intro hno i hi
    rcases transGen_edge_concat hi with hi | ⟨h₁, h₂⟩
    · exact h i hi
    · exact hno (h₂.trans h₁)

namespace LinksFit

variable {allowCycles : Bool} {links : List Ends} {e : Ends}

lemma nil : LinksFit allowCycles [] where
  outputs := List.nodup_nil
  inputs := List.nodup_nil
  noLoop := by simp
  acyclic := by
    refine Or.inr fun i hi => ?_
    obtain ⟨j, hij, -⟩ := Relation.TransGen.head'_iff.mp hi
    simp [Edge] at hij

/-- Some of the links that fit together fit together. -/
lemma sublist {part : List Ends} (h : LinksFit allowCycles links)
    (hs : part.Sublist links) : LinksFit allowCycles part where
  outputs := h.outputs.sublist (hs.map Prod.fst)
  inputs := h.inputs.sublist (hs.map Prod.snd)
  noLoop e he := h.noLoop e (hs.subset he)
  acyclic := by
    refine h.acyclic.imp_right fun hall i hi =>
      hall i (Relation.TransGen.mono (fun j k => ?_) _ _ hi)
    rintro ⟨e, he, rfl, rfl⟩
    exact ⟨e, hs.subset he, rfl, rfl⟩

/-- One more link fits exactly if the others admit it. -/
lemma concat_iff (h : LinksFit allowCycles links) :
    LinksFit allowCycles (links ++ [e]) ↔ Admits allowCycles links e := by
  have hnodup : ∀ {l : List PortPlace} {p : PortPlace}, l.Nodup →
      ((l ++ [p]).Nodup ↔ p ∉ l) := by
    intro l p hl
    rw [List.nodup_append]
    grind
  have hcycle : (allowCycles = true ∨
      ∀ i, ¬ Relation.TransGen (Edge (links ++ [e])) i i) ↔ (allowCycles = true ∨
        ¬ Relation.ReflTransGen (Edge links) e.2.node e.1.node) := by
    rcases h.acyclic with hallow | hacyclic
    · simp [hallow]
    · rw [acyclic_edge_concat hacyclic]
  constructor
  · intro h'
    refine ⟨?_, ?_, h'.noLoop e (by simp), hcycle.mp h'.acyclic⟩
    · exact (hnodup h.outputs).mp (by simpa using h'.outputs)
    · exact (hnodup h.inputs).mp (by simpa using h'.inputs)
  · intro h'
    refine ⟨?_, ?_, ?_, hcycle.mpr h'.noWay⟩
    · simpa using (hnodup h.outputs).mpr h'.output
    · simpa using (hnodup h.inputs).mpr h'.input
    · intro e' he'
      rcases List.mem_append.mp he' with he' | he'
      · exact h.noLoop e' he'
      · obtain rfl := List.mem_singleton.mp he'
        exact h'.noLoop

end LinksFit

/-! ### The table of links -/

/-- The table holds these links between `n` nodes. -/
structure Wiring.Holds (w : Wiring) (n : ℕ) (links : List Ends) : Prop where
  outputs : ∀ p, p ∈ w.outputs ↔ p ∈ links.map Prod.fst
  inputs : ∀ p, p ∈ w.inputs ↔ p ∈ links.map Prod.snd
  size : w.successors.size = n
  after : ∀ i j, j ∈ w.after i ↔ Edge links i j

namespace Wiring

variable {w : Wiring} {n : ℕ} {links : List Ends} {e : Ends} {allowCycles : Bool}
  {l : LinkSpec}

lemma holds_start (n : ℕ) : (start n).Holds n [] where
  outputs := by simp [start]
  inputs := by simp [start]
  size := by simp [start]
  after i j := by
    simp only [after, start, Edge, Array.getElem?_replicate]
    split <;> simp

/-- The search of the table follows the links. -/
lemma Holds.reaches_iff (h : w.Holds n links) {a b : ℕ} :
    w.reaches a b = true ↔ Relation.ReflTransGen (Edge links) a b := by
  have hb : Reachability.Bounded w.after w.successors.size := by
    intro v hv
    simp [Wiring.after, Array.getElem?_eq_none hv]
  rw [Wiring.reaches, Reachability.reaches_iff hb]
  constructor
  · intro hpath
    induction hpath with
    | refl => exact .refl
    | step hv _ ih => exact .head ((h.after _ _).mp hv) ih
  · intro hway
    induction hway using Relation.ReflTransGen.head_induction_on with
    | refl => exact .refl _
    | head hij _ ih => exact .step ((h.after _ _).mpr hij) ih

/-- A link is accepted exactly if the links before it admit it. -/
lemma Holds.connect_iff (h : w.Holds n links) :
    (w.connect allowCycles l e.1 e.2).1 = none ↔ Admits allowCycles links e := by
  have hway : ∀ (outputs inputs : List PortPlace),
      (⟨outputs, inputs, w.successors⟩ : Wiring).reaches e.2.node e.1.node = true ↔
        Relation.ReflTransGen (Edge links) e.2.node e.1.node :=
    fun _ _ => h.reaches_iff
  rw [Wiring.connect]
  split
  · rename_i hout
    exact iff_of_false (by simp) fun ha => ha.output ((h.outputs _).mp hout)
  · rename_i hout
    rw [h.outputs] at hout
    simp only
    split
    · rename_i hin
      exact iff_of_false (by simp) fun ha => ha.input ((h.inputs _).mp hin)
    · rename_i hin
      rw [h.inputs] at hin
      split
      · rename_i hloop
        exact iff_of_false (by simp) fun ha => ha.noLoop hloop
      · rename_i hloop
        split
        · rename_i hcycle
          rw [Bool.and_eq_true, hway] at hcycle
          refine iff_of_false (by simp) fun ha => ?_
          rcases ha.noWay with hallow | hno
          · simp [hallow] at hcycle
          · exact hno hcycle.2
        · rename_i hcycle
          rw [Bool.and_eq_true, hway] at hcycle
          refine iff_of_true rfl ⟨hout, hin, hloop, ?_⟩
          cases allowCycles
          · exact Or.inr fun hno => hcycle ⟨rfl, hno⟩
          · exact Or.inl rfl

/-- An accepted link is in the table from then on. -/
lemma Holds.connect (h : w.Holds n links) (hn : e.1.node < n)
    (hok : (w.connect allowCycles l e.1 e.2).1 = none) :
    (w.connect allowCycles l e.1 e.2).2.Holds n (links ++ [e]) := by
  have hw : (w.connect allowCycles l e.1 e.2).2 = {
      outputs := e.1 :: w.outputs
      inputs := e.2 :: w.inputs
      successors := w.successors.modify e.1.node (e.2.node :: ·) } := by
    have ha := h.connect_iff.mp hok
    have hno : ¬ (!allowCycles && (⟨e.1 :: w.outputs, e.2 :: w.inputs,
        w.successors⟩ : Wiring).reaches e.2.node e.1.node) = true := by
      rw [Bool.and_eq_true]
      rintro ⟨hallow, hway⟩
      rcases ha.noWay with hallow' | hnoway
      · simp [hallow'] at hallow
      · exact hnoway (h.reaches_iff.mp hway)
    rw [Wiring.connect, if_neg fun hc => ha.output ((h.outputs _).mp hc)]
    simp only
    rw [if_neg fun hc => ha.input ((h.inputs _).mp hc), if_neg ha.noLoop, if_neg hno]
  rw [hw]
  refine ⟨?_, ?_, by simp [h.size], ?_⟩
  · intro p
    simp [h.outputs, or_comm]
  · intro p
    simp [h.inputs, or_comm]
  · intro i j
    rw [edge_concat, ← h.after]
    simp only [Wiring.after, Array.getElem?_modify]
    split
    · rename_i hi
      obtain ⟨js, hjs⟩ : ∃ js, w.successors[i]? = some js :=
        ⟨_, Array.getElem?_eq_getElem (by rw [h.size, ← hi]; exact hn)⟩
      simp [hjs, hi, or_comm, eq_comm]
    · rename_i hi
      simp [hi]

end Wiring

/-! ### All links -/

namespace Description

variable {d : Description}

/-- The links of a list resolve to these ports. -/
def Resolves (d : Description) (l : LinkSpec) (e : Ends) : Prop :=
  d.resolve .output l.source = .ok e.1 ∧ d.resolve .input l.target = .ok e.2

/-- Both ends of a link without flaws resolve. -/
lemma exists_resolves {l : LinkSpec} {w : Wiring} (h : (d.checkLink l w).1 = none) :
    ∃ e, d.Resolves l e := by
  rw [checkLink] at h
  split at h
  · cases h
  · rename_i p hp
    split at h
    · cases h
    · rename_i q hq
      exact ⟨(p, q), hp, hq⟩

lemma Resolves.checkLink {l : LinkSpec} {e : Ends} (h : d.Resolves l e) (w : Wiring) :
    d.checkLink l w = w.connect d.allowCycles l e.1 e.2 := by
  rw [Description.checkLink, h.1, h.2]

lemma resolve_lt {direction : Direction} {reference : String} {place : PortPlace}
    (h : d.resolve direction reference = .ok place) : place.node < d.nodes.length := by
  rw [resolve] at h
  split at h
  · cases h
  · split at h
    · cases h
    · split at h
      · cases h
      · rename_i hn
        split at h
        · cases h
          exact (List.getElem?_eq_some_iff.mp hn).1
        · cases h

/-- All links of a list without flaws resolve. -/
lemma exists_resolves_of_linkFlaws {links : List LinkSpec} {w : Wiring}
    (h : d.linkFlaws links w = []) : ∀ l ∈ links, ∃ e, d.Resolves l e := by
  induction links generalizing w with
  | nil => simp
  | cons l links ih =>
      simp only [linkFlaws, List.append_eq_nil_iff, Option.toList_eq_nil_iff] at h
      intro l' hl'
      rcases List.mem_cons.mp hl' with rfl | hl'
      · exact exists_resolves h.1
      · exact ih h.2 l' hl'

/-- Checked one after the other against those before them, links are without
flaws exactly if they fit together. -/
lemma linkFlaws_eq_nil_iff {ends : LinkSpec → Ends} {links : List LinkSpec}
    {w : Wiring} {before : List Ends} (hl : ∀ l ∈ links, d.Resolves l (ends l))
    (hw : w.Holds d.nodes.length before) (hb : LinksFit d.allowCycles before) :
    d.linkFlaws links w = [] ↔
      LinksFit d.allowCycles (before ++ links.map ends) := by
  induction links generalizing w before with
  | nil => simpa [linkFlaws] using hb
  | cons l links ih =>
      have hres := hl l (List.mem_cons_self ..)
      have hrest := fun l' hl' => hl l' (List.mem_cons_of_mem l hl')
      have hcheck := hres.checkLink w
      simp only [linkFlaws, List.append_eq_nil_iff, Option.toList_eq_nil_iff, hcheck]
      rw [List.map_cons, List.append_cons]
      constructor
      · rintro ⟨hok, hflaws⟩
        have hfit := hb.concat_iff.mpr (hw.connect_iff.mp hok)
        exact (ih hrest (hw.connect (resolve_lt hres.1) hok) hfit).mp hflaws
      · intro hfits
        have hfit := hfits.sublist (List.sublist_append_left _ _)
        have hok := (hw.connect_iff (l := l)).mpr (hb.concat_iff.mp hfit)
        exact ⟨hok, (ih hrest (hw.connect (resolve_lt hres.1) hok) hfit).mpr hfits⟩

/-! ### The script -/

/-- A step can be performed: it names a node, happens at least once, and does
not pull a source, push a sink or push an asynchronous node. -/
def Performs (d : Description) (step : StepSpec) : Prop :=
  ∃ n ∈ d.nodes, n.name = step.node ∧ 1 ≤ step.times ∧
    ¬ (step.mode = .pull ∧ n.kind = .source) ∧
    ¬ (step.mode = .push ∧ n.kind = .sink) ∧
    ¬ (step.mode = .push ∧ n.async = true)

lemma stepFlaw?_eq_none {step : StepSpec} {n : NodeSpec} :
    stepFlaw? step n = none ↔ 1 ≤ step.times ∧
      ¬ (step.mode = .pull ∧ n.kind = .source) ∧
      ¬ (step.mode = .push ∧ n.kind = .sink) ∧
      ¬ (step.mode = .push ∧ n.async = true) := by
  obtain ⟨mode, name, times⟩ := step
  cases mode <;> cases hk : n.kind <;> cases hasync : n.async <;>
    simp [stepFlaw?, hk, hasync, Nat.one_le_iff_ne_zero]

lemma Accepted.checkStep_eq_none (h : d.Accepted) {step : StepSpec} :
    d.checkStep step = none ↔ d.Performs step := by
  have hindex : ∀ n, ((d.indexOf? step.node).bind (d.nodes[·]?) = some n) ↔
      n ∈ d.nodes ∧ n.name = step.node := by
    intro n
    rw [Option.bind_eq_some_iff]
    constructor
    · rintro ⟨i, hi, hn⟩
      obtain ⟨n', hn', hname⟩ := h.indexOf?_eq_some.mp hi
      obtain rfl := Option.some.inj (hn.symm.trans hn')
      exact ⟨List.mem_of_getElem? hn, hname⟩
    · rintro ⟨hn, hname⟩
      obtain ⟨i, hi⟩ := List.mem_iff_getElem?.mp hn
      exact ⟨i, h.indexOf?_eq_some.mpr ⟨n, hi, hname⟩, hi⟩
  rw [checkStep, Performs]
  rcases hb : (d.indexOf? step.node).bind (d.nodes[·]?) with _ | n
  · refine iff_of_false (by simp) ?_
    rintro ⟨n, hn, hname, -⟩
    rw [(hindex n).mpr ⟨hn, hname⟩] at hb
    cases hb
  · simp only [Option.map_eq_none_iff, stepFlaw?_eq_none]
    constructor
    · intro hstep
      exact ⟨n, ((hindex n).mp hb).1, ((hindex n).mp hb).2, hstep⟩
    · rintro ⟨n', hn', hname, hstep⟩
      obtain rfl := Option.some.inj (hb.symm.trans ((hindex n').mpr ⟨hn', hname⟩))
      exact hstep

/-! ### Validity -/

/-- A link leads from node `i` to node `j`. -/
def Joins (d : Description) (i j : ℕ) : Prop :=
  ∃ l ∈ d.links, ∃ p q, d.Names .output l.source p ∧ d.Names .input l.target q ∧
    p.node = i ∧ q.node = j

/-- What a description has to say in order to be accepted. -/
structure Valid (d : Description) : Prop where
  /-- Names are not blank, and no two nodes bear the same one. -/
  name : ∀ n ∈ d.nodes, Text.trim n.name.toList ≠ []
  unique : (d.nodes.map (·.name)).Nodup
  settings : ∀ n ∈ d.nodes, n.Fits
  /-- Both ends of every link name ports. -/
  link : ∀ l ∈ d.links, ∃ p q, d.Names .output l.source p ∧
    d.Names .input l.target q
  /-- No port occurs in two links. -/
  outputs : d.links.Pairwise fun l l' =>
    ∀ p, d.Names .output l.source p → ¬ d.Names .output l'.source p
  inputs : d.links.Pairwise fun l l' =>
    ∀ q, d.Names .input l.target q → ¬ d.Names .input l'.target q
  noLoop : ∀ i, ¬ d.Joins i i
  acyclic : d.allowCycles = true ∨ ∀ i, ¬ Relation.TransGen d.Joins i i
  script : ∀ step ∈ d.script, d.Performs step

/-- Links that resolve fit together exactly if they use no port twice, join no
node to itself and close no cycle. -/
lemma Accepted.linksFit_iff (h : d.Accepted) {ends : LinkSpec → Ends}
    (hends : ∀ l ∈ d.links, d.Resolves l (ends l)) :
    LinksFit d.allowCycles (d.links.map ends) ↔
      (d.links.Pairwise fun l l' =>
        ∀ p, d.Names .output l.source p → ¬ d.Names .output l'.source p) ∧
      (d.links.Pairwise fun l l' =>
        ∀ q, d.Names .input l.target q → ¬ d.Names .input l'.target q) ∧
      (∀ i, ¬ d.Joins i i) ∧
      (d.allowCycles = true ∨ ∀ i, ¬ Relation.TransGen d.Joins i i) := by
  have hsource : ∀ l ∈ d.links, ∀ p, d.Names .output l.source p ↔ p = (ends l).1 := by
    intro l hl p
    rw [← h.resolve_eq_ok, (hends l hl).1, Except.ok.injEq, eq_comm]
  have htarget : ∀ l ∈ d.links, ∀ q, d.Names .input l.target q ↔ q = (ends l).2 := by
    intro l hl q
    rw [← h.resolve_eq_ok, (hends l hl).2, Except.ok.injEq, eq_comm]
  have hjoins : d.Joins = Edge (d.links.map ends) := by
    funext i j
    refine propext ⟨?_, ?_⟩
    · rintro ⟨l, hl, p, q, hp, hq, rfl, rfl⟩
      obtain rfl := (hsource l hl p).mp hp
      obtain rfl := (htarget l hl q).mp hq
      exact ⟨ends l, List.mem_map_of_mem hl, rfl, rfl⟩
    · rintro ⟨e, he, rfl, rfl⟩
      obtain ⟨l, hl, rfl⟩ := List.mem_map.mp he
      exact ⟨l, hl, _, _, (hsource l hl _).mpr rfl, (htarget l hl _).mpr rfl, rfl, rfl⟩
  have houtputs : ((d.links.map ends).map Prod.fst).Nodup ↔
      d.links.Pairwise fun l l' =>
        ∀ p, d.Names .output l.source p → ¬ d.Names .output l'.source p := by
    rw [List.map_map, List.nodup_iff_pairwise_ne, List.pairwise_map]
    refine List.Pairwise.iff_of_mem fun {l l'} hl hl' => ?_
    simp [hsource l hl, hsource l' hl']
  have hinputs : ((d.links.map ends).map Prod.snd).Nodup ↔
      d.links.Pairwise fun l l' =>
        ∀ q, d.Names .input l.target q → ¬ d.Names .input l'.target q := by
    rw [List.map_map, List.nodup_iff_pairwise_ne, List.pairwise_map]
    refine List.Pairwise.iff_of_mem fun {l l'} hl hl' => ?_
    simp [htarget l hl, htarget l' hl']
  have hloop : (∀ e ∈ d.links.map ends, e.1.node ≠ e.2.node) ↔
      ∀ i, ¬ d.Joins i i := by
    rw [hjoins]
    constructor
    · rintro hall i ⟨e, he, hi, hj⟩
      exact hall e he (hi.trans hj.symm)
    · intro hall e he heq
      exact hall e.2.node ⟨e, he, heq, rfl⟩
  rw [← houtputs, ← hinputs, ← hloop, hjoins]
  constructor
  · exact fun hfit => ⟨hfit.outputs, hfit.inputs, hfit.noLoop, hfit.acyclic⟩
  · rintro ⟨ho, hi, hl, hc⟩
    exact ⟨ho, hi, hl, hc⟩

/-- A description is accepted exactly if nodes, links and script are without
flaws. -/
lemma validate_eq_ok : d.validate = .ok () ↔ d.Accepted ∧
    d.linkFlaws d.links (.start d.nodes.length) = [] ∧
    ∀ step ∈ d.script, d.checkStep step = none := by
  have hnil : d.validate = .ok () ↔ d.flaws = [] := by
    rw [validate]
    split <;> simp_all
  rw [hnil, flaws, List.append_eq_nil_iff, List.append_eq_nil_iff,
    nodeFlaws_eq_nil_iff, List.filterMap_eq_nil_iff, and_assoc]

/-- The accepted descriptions are the valid ones. -/
theorem validate_iff (d : Description) : d.validate = .ok () ↔ d.Valid := by
  rw [validate_eq_ok]
  constructor
  · rintro ⟨haccepted, hlinks, hscript⟩
    obtain ⟨hname, hunique, hsettings⟩ := accepted_iff.mp haccepted
    have : Nonempty Ends := ⟨⟨0, 0⟩, ⟨0, 0⟩⟩
    choose! ends hends using exists_resolves_of_linkFlaws hlinks
    have hfit := (linkFlaws_eq_nil_iff hends (Wiring.holds_start _) .nil).mp hlinks
    obtain ⟨houtputs, hinputs, hloop, hacyclic⟩ :=
      (haccepted.linksFit_iff hends).mp hfit
    refine ⟨hname, hunique, hsettings, fun l hl => ?_, houtputs, hinputs, hloop,
      hacyclic, fun step hstep => haccepted.checkStep_eq_none.mp (hscript step hstep)⟩
    exact ⟨_, _, haccepted.resolve_eq_ok.mp (hends l hl).1,
      haccepted.resolve_eq_ok.mp (hends l hl).2⟩
  · intro h
    have haccepted := accepted_iff.mpr ⟨h.name, h.unique, h.settings⟩
    have hres : ∀ l ∈ d.links, ∃ e, d.Resolves l e := by
      intro l hl
      obtain ⟨p, q, hp, hq⟩ := h.link l hl
      exact ⟨(p, q), haccepted.resolve_eq_ok.mpr hp, haccepted.resolve_eq_ok.mpr hq⟩
    have : Nonempty Ends := ⟨⟨0, 0⟩, ⟨0, 0⟩⟩
    choose! ends hends using hres
    have hfit := (haccepted.linksFit_iff hends).mpr
      ⟨h.outputs, h.inputs, h.noLoop, h.acyclic⟩
    exact ⟨haccepted, (linkFlaws_eq_nil_iff hends (Wiring.holds_start _) .nil).mpr hfit,
      fun step hstep => haccepted.checkStep_eq_none.mpr (h.script step hstep)⟩

end Description

end MediaGraph

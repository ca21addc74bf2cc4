/-
The numbers of the ports of a description.

* `Graph.Numbered`: the ports are numbered node after node, the inputs of a node
  before its outputs;
* `Numbered.addNode`, `Numbered.addInput`, `Numbered.addOutput`: each edit that adds
  the nodes of a description adds to the end;
* `Assembly.numbered_addSpecs`: so the ports of a description are numbered;
* `Description.portTotal`, `Assembly.size_ports_of_addSpecs`: there are as many as its
  nodes have.
-/
import MediaGraph.Proofs.Building

namespace MediaGraph

/-! ### Ports one after the other -/

namespace Graph

variable {σ : Type}

/-- How many ports there are if nodes have so many inputs and outputs. -/
def portSum : List (ℕ × ℕ) → ℕ
  | [] => 0
  | c :: rest => c.1 + c.2 + portSum rest

/-- As many ports, numbered from `start` on. -/
def portsFrom (start count : ℕ) : List PortId := (List.range' start count).map Handle.mk

lemma portSum_concat (counts : List (ℕ × ℕ)) (c : ℕ × ℕ) :
    portSum (counts ++ [c]) = portSum counts + (c.1 + c.2) := by
  induction counts with
  | nil => simp [portSum]
  | cons b rest ih => rw [List.cons_append, portSum, ih, portSum, ← Nat.add_assoc]

lemma portsFrom_succ (start count : ℕ) :
    portsFrom start (count + 1) = portsFrom start count ++ [⟨start + count⟩] := by
  simp [portsFrom, List.range'_1_concat]

lemma getElem?_portsFrom {start count k : ℕ} (hk : k < count) :
    (portsFrom start count)[k]? = some ⟨start + k⟩ := by
  simp [portsFrom, hk]

/-- The nodes of a graph have so many inputs and outputs, and the ports are numbered node
after node, the inputs of a node before its outputs. -/
structure Numbered (g : Graph σ) (counts : List (ℕ × ℕ)) : Prop where
  size : g.ports.size = portSum counts
  nodes : g.nodes.size = counts.length
  node : ∀ i c, counts[i]? = some c → ∃ node, g.nodes.get? ⟨i⟩ = some node ∧
    node.inputs.toList = portsFrom (portSum (counts.take i)) c.1 ∧
    node.outputs.toList = portsFrom (portSum (counts.take i) + c.1) c.2

lemma numbered_empty : (empty : Graph σ).Numbered [] where
  size := rfl
  nodes := rfl
  node := by simp

namespace Numbered

variable {g g' : Graph σ} {counts : List (ℕ × ℕ)} {c c' : ℕ × ℕ} {n : NodeId} {p : PortId}

/-- A node appears. -/
lemma addNode (h : g.Numbered counts) {x : σ}
    (hok : (Graph.addNode x).run g = (.ok n, g')) : g'.Numbered (counts ++ [(0, 0)]) := by
  cases hok
  refine ⟨by rw [portSum_concat]; exact h.size, by simp [h.nodes], fun i c hi => ?_⟩
  rcases getElem?_concat_eq_some.mp hi with hi | ⟨rfl, rfl⟩
  · obtain ⟨node, hnode, hports⟩ := h.node i c hi
    have hlt := (List.getElem?_eq_some_iff.mp hi).1
    rw [List.take_append_of_le_length (Nat.le_of_lt hlt)]
    exact ⟨node, Arena.get?_insert_of_some hnode, hports⟩
  · exact ⟨{ processor := x }, by simp [Arena.get?_insert, Arena.fresh, h.nodes], rfl, rfl⟩

/-- The node that was added last changes. -/
lemma modifyLast (h : g.Numbered (counts ++ [c])) {f : Node σ → Node σ}
    (hsize : g'.ports.size = portSum (counts ++ [c']))
    (hnodes : g'.nodes = g.nodes.modify ⟨counts.length⟩ f)
    (hf : ∀ node : Node σ, node.inputs.toList = portsFrom (portSum counts) c.1 →
      node.outputs.toList = portsFrom (portSum counts + c.1) c.2 →
      (f node).inputs.toList = portsFrom (portSum counts) c'.1 ∧
        (f node).outputs.toList = portsFrom (portSum counts + c'.1) c'.2) :
    g'.Numbered (counts ++ [c']) := by
  refine ⟨hsize, by rw [hnodes, Arena.size_modify, h.nodes]; simp, fun i x hi => ?_⟩
  rw [hnodes, Arena.get?_modify]
  rcases getElem?_concat_eq_some.mp hi with hi | ⟨rfl, rfl⟩
  · obtain ⟨node, hnode, hports⟩ := h.node i x (getElem?_concat_eq_some.mpr (Or.inl hi))
    have hlt := (List.getElem?_eq_some_iff.mp hi).1
    rw [List.take_append_of_le_length (Nat.le_of_lt hlt)] at hports ⊢
    exact ⟨node, by rwa [if_neg fun he => Nat.ne_of_gt hlt (congrArg Handle.index he)], hports⟩
  · obtain ⟨node, hnode, hinputs, houtputs⟩ := h.node counts.length c (by simp)
    rw [List.take_left] at hinputs houtputs ⊢
    exact ⟨f node, by rw [if_pos rfl, hnode]; rfl, hf node hinputs houtputs⟩

/-- A node gets a port with the next number. -/
lemma addPort (h : g.Numbered (counts ++ [c])) {d : Direction} {flags : PortFlags}
    (hok : (Graph.addPort ⟨counts.length⟩ d flags).run g = (.ok p, g'))
    (hsize : portSum (counts ++ [c']) = portSum (counts ++ [c]) + 1)
    (hinputs : portsFrom (portSum counts) c'.1 = portsFrom (portSum counts) c.1 ++
      if d = .input then [⟨portSum (counts ++ [c])⟩] else [])
    (houtputs : portsFrom (portSum counts + c'.1) c'.2 =
      portsFrom (portSum counts + c.1) c.2 ++
        if d = .output then [⟨portSum (counts ++ [c])⟩] else []) :
    g'.Numbered (counts ++ [c']) := by
  simp only [Graph.addPort, ExceptT.run] at hok
  split at hok
  · cases hok
  · split at hok
    · cases hok
    · cases hok
      refine h.modifyLast ?_ rfl fun node hi ho => ?_
      · simp [modifyNode, h.size, hsize]
      · rw [hinputs, houtputs, ← hi, ← ho, ← h.size]
        cases d <;> simp [Arena.fresh]

/-- An input comes after those that are there, as long as there are no outputs. -/
lemma addInput {i : ℕ} (h : g.Numbered (counts ++ [(i, 0)])) {flags : PortFlags}
    (hok : (Graph.addPort ⟨counts.length⟩ .input flags).run g = (.ok p, g')) :
    g'.Numbered (counts ++ [(i + 1, 0)]) := by
  refine h.addPort hok ?_ ?_ (by simp [portsFrom])
  · simp only [portSum_concat]
    omega
  · rw [portsFrom_succ, if_pos rfl, portSum_concat, Nat.add_zero]

/-- An output comes after all ports that are there. -/
lemma addOutput {i j : ℕ} (h : g.Numbered (counts ++ [(i, j)]))
    (hok : (Graph.addPort ⟨counts.length⟩ .output {}).run g = (.ok p, g')) :
    g'.Numbered (counts ++ [(i, j + 1)]) := by
  refine h.addPort hok ?_ (by simp) ?_
  · simp only [portSum_concat]
    omega
  · rw [portsFrom_succ, if_pos rfl, portSum_concat, Nat.add_assoc]

lemma setFlags (h : g.Numbered (counts ++ [c])) {flags : NodeFlags} {u : Unit}
    (hok : (Graph.setFlags ⟨counts.length⟩ flags).run g = (.ok u, g')) :
    g'.Numbered (counts ++ [c]) := by
  simp only [Graph.setFlags, ExceptT.run] at hok
  split at hok
  · cases hok
  · cases hok
    exact h.modifyLast h.size rfl fun _ hi ho => ⟨hi, ho⟩

lemma setRequiredIn (h : g.Numbered (counts ++ [c])) {k : ℕ} {u : Unit}
    (hok : (Graph.setRequiredIn ⟨counts.length⟩ k).run g = (.ok u, g')) :
    g'.Numbered (counts ++ [c]) := by
  simp only [Graph.setRequiredIn, ExceptT.run] at hok
  split at hok
  · cases hok
  · cases hok
    exact h.modifyLast h.size rfl fun _ hi ho => ⟨hi, ho⟩

/-- The number of an input. -/
lemma portAt?_input (h : g.Numbered counts) {i k : ℕ} (hi : counts[i]? = some c)
    (hk : k < c.1) : g.portAt? .input ⟨i, k⟩ = some ⟨portSum (counts.take i) + k⟩ := by
  obtain ⟨node, hnode, hinputs, -⟩ := h.node i c hi
  rw [portAt?, hnode, Option.bind_some, Node.portsOf, ← Array.getElem?_toList, hinputs,
    getElem?_portsFrom hk]

/-- The number of an output. -/
lemma portAt?_output (h : g.Numbered counts) {i k : ℕ} (hi : counts[i]? = some c)
    (hk : k < c.2) :
    g.portAt? .output ⟨i, k⟩ = some ⟨portSum (counts.take i) + c.1 + k⟩ := by
  obtain ⟨node, hnode, -, houtputs⟩ := h.node i c hi
  rw [portAt?, hnode, Option.bind_some, Node.portsOf, ← Array.getElem?_toList, houtputs,
    getElem?_portsFrom hk]

end Numbered

end Graph

/-! ### The ports of a description -/

/-- How many inputs and outputs a node of the description has. -/
def NodeSpec.portCounts (spec : NodeSpec) : ℕ × ℕ := (spec.inputCount, spec.outputCount)

/-- The number of ports of the nodes of a description. -/
def Description.portTotal (d : Description) : Nat :=
  d.nodes.foldr (fun n total => n.inputCount + n.outputCount + total) 0

lemma Description.portSum_portCounts (d : Description) :
    Graph.portSum (d.nodes.map NodeSpec.portCounts) = d.portTotal := by
  rw [portTotal]
  induction d.nodes with
  | nil => rfl
  | cons n nodes ih => rw [List.map_cons, Graph.portSum, List.foldr_cons, ih]; rfl

/-- No node has more ports than all nodes together. -/
lemma Description.ports_le_portTotal {d : Description} {spec : NodeSpec}
    (h : spec ∈ d.nodes) : spec.inputCount + spec.outputCount ≤ d.portTotal := by
  rw [portTotal]
  generalize d.nodes = nodes at h
  induction nodes with
  | nil => cases h
  | cons n nodes ih =>
      rw [List.foldr_cons]
      rcases List.mem_cons.mp h with rfl | h
      · exact Nat.le_add_right _ _
      · exact Nat.le_trans (ih h) (Nat.le_add_left _ _)

namespace Assembly

variable {τ : Type} {g g' : Graph (Adapter τ)} {counts : List (ℕ × ℕ)} {n : NodeId}

/-- A node of a description has its ports at the end. -/
lemma numbered_addSpec (h : g.Numbered counts) {spec : NodeSpec}
    (hok : (addSpec spec).run g = (.ok n, g')) :
    g'.Numbered (counts ++ [spec.portCounts]) := by
  obtain ⟨n₁, g₁, hadd, hok⟩ := Edit.run_bind_ok hok
  obtain rfl : n₁ = ⟨counts.length⟩ := by
    cases hadd
    simp [Arena.fresh, h.nodes]
  obtain ⟨⟨⟩, g₂, hins, hok⟩ := Edit.run_bind_ok hok
  have h₂ := Edit.run_forM_range
    (P := fun i g => g.Numbered (counts ++ [(i, 0)])) hins (h.addNode hadd)
    fun i _ g g' hg hstep => by
      obtain ⟨p, g₁, hp, hpure⟩ := Edit.run_bind_ok (m := Graph.addPort _ _ _) hstep
      obtain ⟨-, rfl⟩ := Edit.run_pure_ok hpure
      exact hg.addInput hp
  obtain ⟨⟨⟩, g₃, houts, hok⟩ := Edit.run_bind_ok hok
  have h₃ := Edit.run_forM_range
    (P := fun j g => g.Numbered (counts ++ [(spec.inputCount, j)])) houts h₂
    fun j _ g g' hg hstep => by
      obtain ⟨p, g₁, hp, hpure⟩ := Edit.run_bind_ok (m := Graph.addPort _ _ _) hstep
      obtain ⟨-, rfl⟩ := Edit.run_pure_ok hpure
      exact hg.addOutput hp
  -- the settings change no ports
  split at hok
  · split at hok
    · obtain ⟨⟨⟩, g₄, hset, hok⟩ := Edit.run_bind_ok hok
      obtain ⟨⟨⟩, g₅, hover, hok⟩ := Edit.run_bind_ok hok
      obtain ⟨-, rfl⟩ := Edit.run_pure_ok hok
      exact (h₃.setFlags hset).setRequiredIn hover
    · obtain ⟨⟨⟩, g₅, hover, hok⟩ := Edit.run_bind_ok hok
      obtain ⟨-, rfl⟩ := Edit.run_pure_ok hok
      exact h₃.setRequiredIn hover
  · split at hok
    · obtain ⟨⟨⟩, g₄, hset, hok⟩ := Edit.run_bind_ok hok
      obtain ⟨-, rfl⟩ := Edit.run_pure_ok hok
      exact h₃.setFlags hset
    · obtain ⟨-, rfl⟩ := Edit.run_pure_ok hok
      exact h₃

/-- The ports of a description are numbered node after node. -/
lemma numbered_addSpecs (h : g.Numbered counts) {specs : List NodeSpec}
    {nodes : List (String × NodeId)} (hok : (addSpecs specs).run g = (.ok nodes, g')) :
    g'.Numbered (counts ++ specs.map NodeSpec.portCounts) := by
  induction specs generalizing g counts nodes with
  | nil =>
      obtain ⟨-, rfl⟩ := Edit.run_pure_ok hok
      simpa using h
  | cons spec specs ih =>
      rw [addSpecs, List.mapM_cons] at hok
      obtain ⟨x, g₁, hx, hok⟩ := Edit.run_bind_ok hok
      obtain ⟨n, g₂, hn, hpure⟩ := Edit.run_bind_ok hx
      obtain ⟨-, rfl⟩ := Edit.run_pure_ok hpure
      obtain ⟨rest, g₃, hrest, hpure⟩ := Edit.run_bind_ok hok
      obtain ⟨-, rfl⟩ := Edit.run_pure_ok hpure
      simpa using ih (numbered_addSpec h hn) hrest

/-- There are as many ports as the nodes of the description have. -/
lemma size_ports_of_addSpecs {d : Description} {nodes : List (String × NodeId)}
    (hok : (addSpecs d.nodes).run .empty = (.ok nodes, g)) : g.ports.size = d.portTotal := by
  rw [(numbered_addSpecs Graph.numbered_empty hok).size, List.nil_append,
    d.portSum_portCounts]

end Assembly

end MediaGraph

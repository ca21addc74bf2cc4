/-
Which nodes data of a node can flow to.

* `Graph.LinksTo`: a link leads from an output of a live node to an input of
  another one;
* `Linked.mem_downstream`, `Linked.path_iff`: the search follows these links;
* `Tidy.length_successors_le`: all nodes together have no more successors than
  there are links;
* `Action.canReach_iff`: in every graph that a client can make, a node can reach
  itself and the nodes at the end of a path of links, and the search for one looks at
  no more nodes than there are links, and one.
-/
import Mathlib.Data.List.Perm.Subperm
import Mathlib.Logic.Relation
import MediaGraph.Proofs.Search
import MediaGraph.Proofs.Structure

namespace MediaGraph

variable {σ : Type}

namespace Graph

/-! ### The links that the search follows -/

/-- A link leads from an output of the live node `m` to an input of the live node
`n`. -/
def LinksTo (g : Graph σ) (m n : NodeId) : Prop :=
  ∃ node node' p q, g.nodes.get? m = some node ∧ g.nodes.get? n = some node' ∧
    p ∈ node.outputs ∧ q ∈ node'.inputs ∧ g.peer? p = some q

/-- The successors of a node, by number. -/
def successors (g : Graph σ) (i : Nat) : List Nat := (g.downstream ⟨i⟩).map (·.index)

lemma canReach_eq (g : Graph σ) (a b : NodeId) : g.canReach a b =
    Reachability.reaches g.successors g.nodes.size a.index b.index := rfl

variable {g : Graph σ} {m n a b : NodeId}

/-- The nodes downstream of a node are those that its links lead to. -/
lemma Linked.mem_downstream (h : g.Linked) : n ∈ g.downstream m ↔ g.LinksTo m n := by
  constructor
  · intro hn
    rcases hm : g.nodes.get? m with _ | node
    · simp [downstream, hm] at hn
    simp only [downstream, hm, List.mem_filterMap, Array.mem_toList_iff,
      Option.bind_eq_bind, Option.bind_eq_some_iff, Option.pure_def,
      Option.some.injEq] at hn
    obtain ⟨p, hp, q, hpq, port', hq, rfl⟩ := hn
    -- the peer of an output is an input, and listed as such by its owner
    obtain ⟨port, hport, -, hout⟩ := h.lists (d := .output) hm hp
    obtain ⟨-, -, _, _, hport', hq', hne, -⟩ := h.peer hpq
    obtain rfl := Option.some.inj (hport.symm.trans hport')
    obtain rfl := Option.some.inj (hq.symm.trans hq')
    have hin : port'.direction = .input := by
      cases hd : port'.direction
      · rfl
      · exact absurd (hd.trans hout.symm) hne
    obtain ⟨node', hnode', hcount⟩ := h.listed hq
    rw [hin] at hcount
    have hmem : q ∈ (node'.portsOf .input).toList := List.count_pos_iff.mp (by omega)
    exact ⟨node, node', p, q, hm, hnode', hp, Array.mem_toList_iff.mp hmem, hpq⟩
  · rintro ⟨node, node', p, q, hm, hn, hp, hq, hpq⟩
    obtain ⟨port', hq', rfl, -⟩ := h.lists (d := .input) hn hq
    simp only [downstream, hm, List.mem_filterMap, Array.mem_toList_iff,
      Option.bind_eq_bind, Option.bind_eq_some_iff, Option.pure_def, Option.some.injEq]
    exact ⟨p, hp, q, hpq, port', hq', rfl⟩

lemma Linked.mem_successors (h : g.Linked) {i j : Nat} :
    j ∈ g.successors i ↔ g.LinksTo ⟨i⟩ ⟨j⟩ := by
  rw [← h.mem_downstream, successors, List.mem_map]
  constructor
  · rintro ⟨n, hn, rfl⟩
    exact hn
  · exact fun hj => ⟨_, hj, rfl⟩

/-- A chain of successors is a path of links. -/
lemma Linked.path_iff (h : g.Linked) :
    Reachability.Path g.successors a.index b.index ↔ Relation.ReflTransGen g.LinksTo a b := by
  constructor
  · have key : ∀ {i j : Nat}, Reachability.Path g.successors i j →
        Relation.ReflTransGen g.LinksTo ⟨i⟩ ⟨j⟩ := by
      intro i j hpath
      induction hpath with
      | refl => exact .refl
      | step hv _ ih => exact .head (h.mem_successors.mp hv) ih
    exact fun hpath => key hpath
  · intro hway
    induction hway using Relation.ReflTransGen.head_induction_on with
    | refl => exact .refl _
    | head hij _ ih => exact .step (h.mem_successors.mpr hij) ih

/-- A node that was never created has no successors. -/
lemma bounded_successors (g : Graph σ) : Reachability.Bounded g.successors g.nodes.size := by
  intro i hi
  simp [successors, downstream, Arena.get?_of_size_le (h := (⟨i⟩ : NodeId)) hi]

/-! ### How many there are -/

/-- The linked outputs of a node. -/
def linkedOutputs (g : Graph σ) (i : Nat) : List PortId :=
  ((g.nodes.get? ⟨i⟩).elim [] (·.outputs.toList)).filter fun p => (g.peer? p).isSome

/-- A node has at most one successor for each of its linked outputs. -/
lemma length_successors_le (g : Graph σ) (i : Nat) :
    (g.successors i).length ≤ (g.linkedOutputs i).length := by
  rcases hn : g.nodes.get? (⟨i⟩ : NodeId) with _ | node
  · simp [successors, downstream, hn]
  · simp only [successors, downstream, linkedOutputs, hn, List.length_map, Option.elim_some,
      List.length_filterMap_eq_countP, ← List.countP_eq_length_filter]
    refine List.countP_mono_left fun p _ hp => ?_
    rcases hq : g.peer? p with _ | q <;> simp [hq] at hp ⊢

lemma mem_linkedOutputs {i : Nat} {p : PortId} : p ∈ g.linkedOutputs i ↔
    ∃ node, g.nodes.get? ⟨i⟩ = some node ∧ p ∈ node.outputs ∧ (g.peer? p).isSome = true := by
  rcases hn : g.nodes.get? (⟨i⟩ : NodeId) with _ | node <;> simp [linkedOutputs, hn]

/-- The linked outputs of all nodes differ from each other. -/
lemma Tidy.nodup_linkedOutputs (h : g.Tidy) (k : Nat) :
    ((List.range k).flatMap g.linkedOutputs).Nodup := by
  refine List.nodup_flatMap.mpr ⟨fun i _ => ?_, List.nodup_range.imp fun {i j} hij p hi hj => ?_⟩
  · rcases hn : g.nodes.get? (⟨i⟩ : NodeId) with _ | node
    · simp [linkedOutputs, hn]
    · have hnd : node.outputs.toList.Nodup := by
        have := h.layout.nodup ⟨i⟩ .output
        rwa [h.shows.portsOf hn .output] at this
      simpa [linkedOutputs, hn] using hnd.filter fun p => (g.peer? p).isSome
  · -- a port has one owner
    obtain ⟨node, hn, hp, -⟩ := mem_linkedOutputs.mp hi
    obtain ⟨node', hn', hp', -⟩ := mem_linkedOutputs.mp hj
    obtain ⟨port, hport, howner, -⟩ := h.linked.lists (d := .output) hn hp
    obtain ⟨port', hport', howner', -⟩ := h.linked.lists (d := .output) hn' hp'
    obtain rfl := Option.some.inj (hport.symm.trans hport')
    exact hij (congrArg Handle.index (howner.symm.trans howner'))

/-- All nodes together have no more successors than there are links. -/
lemma Tidy.length_successors_le (h : g.Tidy) (k : Nat) :
    ((List.range k).flatMap g.successors).length ≤ g.linkCount := by
  have hle : ∀ l : List Nat,
      (l.flatMap g.successors).length ≤ (l.flatMap g.linkedOutputs).length := by
    intro l
    induction l with
    | nil => exact Nat.le_refl _
    | cons i l ih =>
        have := g.length_successors_le i
        simp only [List.flatMap_cons, List.length_append]
        omega
  have hsub : (List.range k).flatMap g.linkedOutputs ⊆ g.ports.handles.filter fun p =>
      (g.ports.get? p).any fun port => port.direction = .output && port.link.isSome := by
    intro p hp
    obtain ⟨i, -, hp⟩ := List.mem_flatMap.mp hp
    obtain ⟨node, hn, hp, hpeer⟩ := mem_linkedOutputs.mp hp
    obtain ⟨port, hport, -, hout⟩ := h.linked.lists (d := .output) hn hp
    have hlink : port.link.isSome = true := by
      simpa [peer?, hport, Port.peer?] using hpeer
    exact List.mem_filter.mpr ⟨Arena.mem_handles.mpr ⟨port, hport⟩, by simp [hport, hout, hlink]⟩
  rw [h.linkCount_eq, Arena.countP_values, List.countP_eq_length_filter]
  exact Nat.le_trans (hle _) ((h.nodup_linkedOutputs k).subperm hsub).length_le

end Graph

/-! ### Every graph of a client -/

/-- In every graph that a client can make, with cycles and with nodes that are gone, a
node can reach itself and the nodes at the end of a path of links, and no other. The
search for such a path ends: it looks at no more nodes than there are links, and
one. -/
theorem Action.canReach_iff [Processor σ] (actions : List (Action σ)) (a b : NodeId) :
    ((graph actions).canReach a b = true ↔
        a = b ∨ Relation.TransGen (graph actions).LinksTo a b) ∧
      ∃ looks ≤ (graph actions).linkCount + 1,
        Reachability.Looks (graph actions).successors b.index looks
          (.replicate (graph actions).nodes.size false) [a.index]
          ((graph actions).canReach a b) := by
  have h := tidy_graph actions
  rw [Graph.canReach_eq]
  constructor
  · rw [Reachability.reaches_iff (graph actions).bounded_successors, h.linked.path_iff,
      Relation.reflTransGen_iff_eq_or_transGen, eq_comm (a := b)]
  · obtain ⟨looks, hlooks, hsearch⟩ := Reachability.exists_looks_reaches
      (graph actions).successors (graph actions).nodes.size a.index b.index
    have := h.length_successors_le (graph actions).nodes.size
    exact ⟨looks, by omega, hsearch⟩

end MediaGraph

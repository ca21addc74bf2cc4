/-
Operations that are refused change nothing.

* `Graph.Atomic`: a graph stays as it is if an edit of it is refused;
* `Graph.removePort_eq`: a port whose owner is live is removed, so that the look-up
  of the owner, which comes after the port is gone, never fails in a tidy graph;
* `Action.refused_unchanged`: every edit of a graph that a client can make is
  atomic, and an activation whose driver does not exist leaves the graph as it is
  and calls nobody.
-/
import MediaGraph.Adapter
import MediaGraph.Proofs.Quiescence

namespace MediaGraph

variable {σ : Type}

namespace Graph

variable {g : Graph σ} {n : NodeId} {p q : PortId}

/-- If the edit is refused, the graph stays as it is. -/
def Atomic {α : Type} (g : Graph σ) (edit : Edit σ α) : Prop :=
  ∀ e g', edit.run g = (.error e, g') → g' = g

/-! ### Edits that look before they change anything -/

lemma atomic_removeNode (g : Graph σ) (n : NodeId) : g.Atomic (Graph.removeNode n) := by
  intro e g' h
  simp only [Graph.removeNode, ExceptT.run] at h
  split at h <;> cases h
  rfl

lemma atomic_addPort (g : Graph σ) (n : NodeId) (d : Direction) (flags : PortFlags) :
    g.Atomic (Graph.addPort n d flags) :=
  fun _ _ h => addPort_refused h

lemma atomic_link (g : Graph σ) (p q : PortId) : g.Atomic (Graph.link p q) :=
  fun _ _ h => link_refused h

lemma atomic_unlink (g : Graph σ) (p q : PortId) : g.Atomic (Graph.unlink p q) := by
  intro e g' h
  simp only [Graph.unlink, ExceptT.run] at h
  repeat' split at h
  all_goals
    cases h
    try rfl

lemma atomic_setRequiredIn (g : Graph σ) (n : NodeId) (required : Nat) :
    g.Atomic (Graph.setRequiredIn n required) := by
  intro e g' h
  simp only [Graph.setRequiredIn, ExceptT.run] at h
  split at h <;> cases h
  rfl

lemma atomic_setFlags (g : Graph σ) (n : NodeId) (flags : NodeFlags) :
    g.Atomic (Graph.setFlags n flags) := by
  intro e g' h
  simp only [Graph.setFlags, ExceptT.run] at h
  split at h <;> cases h
  rfl

lemma atomic_reuseBuffer [Processor σ] (g : Graph σ) (p : PortId) (b : BufferId) :
    g.Atomic (Graph.reuseBuffer p b) := by
  intro e g' h
  simp only [Graph.reuseBuffer, ExceptT.run] at h
  repeat' split at h
  all_goals
    cases h
    try rfl

/-! ### Removing a port -/

/-- A node that does not list a port any more, and that requires one input less if the
port was required. -/
def forgetPort (p : PortId) (required : Bool) (node : Node σ) : Node σ :=
  let requiredIn := if required then node.requiredIn - 1 else node.requiredIn
  { node with
    inputs := node.inputs.filter (· ≠ p)
    outputs := node.outputs.filter (· ≠ p)
    requiredIn
    readyIn := min node.readyIn requiredIn }

/-- No node goes with a port. -/
lemma isSome_get?_nodes_dropPort (g : Graph σ) (p : PortId) (n : NodeId) :
    ((g.dropPort p).nodes.get? n).isSome = (g.nodes.get? n).isSome := by
  have hlayout := congrFun (congrArg Layout.node (g.layout_dropPort p)) n
  rw [Layout.node_drop] at hlayout
  simpa [Graph.layout] using congrArg Option.isSome hlayout

/-- A port whose owner is live is removed, and its owner forgets it. -/
lemma removePort_eq {port : Port} (hp : g.ports.get? p = some port)
    (hn : (g.nodes.get? port.owner).isSome = true) : (Graph.removePort p).run g =
      (.ok (), (g.dropPort p).modifyNode port.owner (forgetPort p port.isRequired)) := by
  rw [← isSome_get?_nodes_dropPort g p] at hn
  obtain ⟨node, hnode⟩ := Option.isSome_iff_exists.mp hn
  simp only [Graph.removePort, ExceptT.run, hp, hnode]
  rfl

/-- The owner of a port is live in a tidy graph: only the look-up of the port itself,
which comes first, can fail. -/
lemma Tidy.atomic_removePort (h : g.Tidy) (p : PortId) : g.Atomic (Graph.removePort p) := by
  intro e g' hr
  rcases hp : g.ports.get? p with _ | port
  · simp only [Graph.removePort, ExceptT.run, hp] at hr
    cases hr
    rfl
  · obtain ⟨node, hn, -⟩ := h.linked.listed hp
    rw [removePort_eq hp (by rw [hn]; rfl)] at hr
    cases hr

/-! ### Activations -/

variable [Processor σ]

/-- Only a missing driver is reported as such, and then nothing happens. -/
lemma Tidy.activate_refused (h : g.Tidy) (ht : g.Tallied) {budget : Nat} {mode : Mode}
    {m : NodeId} (hr : (g.activate budget mode n).result = .error (.driverNotFound m)) :
    (g.activate budget mode n).graph = g ∧ (g.activate budget mode n).callbacks = [] := by
  cases ht.aborts h hr with
  | missing hn =>
      constructor <;> simp only [Graph.activate, hn]

end Graph

/-! ### Every graph of a client -/

/-- In every graph that actions make of the empty one, whatever names an operation is
given: an edit that is refused leaves the graph as it was, and so does a pull or a push
whose driver is not found, which does not call any processor either. -/
theorem Action.refused_unchanged [Processor σ] (actions : List (Action σ)) :
    (∀ n, (Action.graph actions).Atomic (Graph.removeNode n)) ∧
    (∀ n d flags, (Action.graph actions).Atomic (Graph.addPort n d flags)) ∧
    (∀ p, (Action.graph actions).Atomic (Graph.removePort p)) ∧
    (∀ p q, (Action.graph actions).Atomic (Graph.link p q)) ∧
    (∀ p q, (Action.graph actions).Atomic (Graph.unlink p q)) ∧
    (∀ n k, (Action.graph actions).Atomic (Graph.setRequiredIn n k)) ∧
    (∀ n flags, (Action.graph actions).Atomic (Graph.setFlags n flags)) ∧
    (∀ p b, (Action.graph actions).Atomic (Graph.reuseBuffer p b)) ∧
    (∀ n m, ((Action.graph actions).pull n).result = .error (.driverNotFound m) →
      ((Action.graph actions).pull n).graph = Action.graph actions ∧
        ((Action.graph actions).pull n).callbacks = []) ∧
    ∀ n m, ((Action.graph actions).push n).result = .error (.driverNotFound m) →
      ((Action.graph actions).push n).graph = Action.graph actions ∧
        ((Action.graph actions).push n).callbacks = [] := by
  have htidy := Action.tidy_graph actions
  have htallied := Action.tallied_graph actions
  generalize Action.graph actions = g at htidy htallied
  exact ⟨g.atomic_removeNode, g.atomic_addPort, htidy.atomic_removePort, g.atomic_link,
    g.atomic_unlink, g.atomic_setRequiredIn, g.atomic_setFlags, g.atomic_reuseBuffer,
    fun _ _ => htidy.activate_refused htallied, fun _ _ => htidy.activate_refused htallied⟩

/-- A sink that lost one of its two inputs, and a source that was removed. -/
def Action.remains : List (Action (Adapter Empty)) :=
  [.addNode (.sink {}), .addPort ⟨0⟩ .input {}, .addPort ⟨0⟩ .input {},
    .addNode (.source (.ofBuffers 1)), .removePort ⟨0⟩, .removeNode ⟨1⟩]

/-- To remove the lost input again and to pull the source is refused and changes
nothing. -/
theorem Action.refused_unchanged_remains :
    (Graph.removePort ⟨0⟩).run (graph remains) =
      (.error (.portNotFound ⟨0⟩), graph remains) ∧
    ((graph remains).pull ⟨1⟩).result = .error (.driverNotFound ⟨1⟩) ∧
    ((graph remains).pull ⟨1⟩).graph = graph remains := by
  have hport : ((Graph.removePort ⟨0⟩).run (graph remains)).1 =
      .error (.portNotFound ⟨0⟩) := by decide +kernel
  have hpull : ((graph remains).pull ⟨1⟩).result = .error (.driverNotFound ⟨1⟩) := by
    decide +kernel
  obtain ⟨-, -, hremove, -, -, -, -, -, hrefused, -⟩ := refused_unchanged remains
  have hrun := Prod.ext hport (Eq.refl ((Graph.removePort ⟨0⟩).run (graph remains)).2)
  refine ⟨?_, hpull, (hrefused _ _ hpull).1⟩
  rw [hremove _ _ _ hrun] at hrun
  exact hrun

end MediaGraph

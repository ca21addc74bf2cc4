/-
What a node requires and what it could be given, through a whole history.

* `Graph.requirement`, `Graph.requiredInputs`: how many counted inputs let a node
  run, and how many inputs it has that are not optional;
* `Action.Effect`, `Tidy.effect`: what an action can do to the two numbers;
* `Action.Lawful`: every override asks for at least one of the inputs that the
  node then requires, and for no more than there are;
* `Action.Undercut`: a node that required one of several inputs lost one of them,
  and its requirement was not raised since;
* `Graph.nothingRequired_of_pull`, `Tidy.demandsNothing_of_activate`: which
  activations stop at a node that requires nothing of its required inputs;
* `Action.nothingRequired_iff_undercut`: after lawful overrides these are the
  undercut nodes, and no others.
-/
import MediaGraph.Adapter
import MediaGraph.Proofs.Counters
import MediaGraph.Proofs.Observation
import MediaGraph.Proofs.Quiescence

namespace MediaGraph

variable {σ : Type}

namespace Graph

variable {g g' : Graph σ} {n m : NodeId} {p : PortId}

/-! ### Two numbers of a node -/

/-- How many counted inputs let a node run. -/
def requirement (g : Graph σ) (n : NodeId) : Nat :=
  (g.nodes.get? n).elim 0 (·.requiredIn)

/-- How many inputs of a node are not optional. -/
def requiredInputs (g : Graph σ) (n : NodeId) : Nat :=
  (g.inputsOf n).countP g.isRequired

lemma requirement_eq_layout (g : Graph σ) (n : NodeId) :
    g.requirement n = (g.layout.node n).elim 0 (·.requiredIn) := by
  simp only [requirement, Graph.layout]
  cases g.nodes.get? n <;> rfl

lemma inputsOf_eq_layout (g : Graph σ) (n : NodeId) :
    g.inputsOf n = (g.layout.node n).elim [] (·.inputs.toList) := by
  simp only [inputsOf, Graph.layout]
  cases g.nodes.get? n <;> rfl

lemma isRequired_eq_layout (g : Graph σ) (p : PortId) :
    g.isRequired p = (g.layout.port p).any (·.isRequired) := by
  simp only [isRequired, Graph.layout]
  cases g.ports.get? p <;> rfl

/-- A graph shows a node the two numbers that another one shows of it. -/
structure SameDemand (g g' : Graph σ) (n : NodeId) : Prop where
  requirement : g'.requirement n = g.requirement n
  requiredInputs : g'.requiredInputs n = g.requiredInputs n

namespace SameDemand

lemma refl (g : Graph σ) (n : NodeId) : g.SameDemand g n := ⟨rfl, rfl⟩

lemma trans {g₁ g₂ g₃ : Graph σ} (h : g₁.SameDemand g₂ n) (h' : g₂.SameDemand g₃ n) :
    g₁.SameDemand g₃ n :=
  ⟨h'.requirement.trans h.requirement, h'.requiredInputs.trans h.requiredInputs⟩

/-- The numbers of a node are a matter of its layout and of its inputs. -/
lemma of_layout (hnode : g'.layout.node n = g.layout.node n)
    (hports : ∀ p ∈ g.inputsOf n, g'.isRequired p = g.isRequired p) :
    g.SameDemand g' n := by
  have hin : g'.inputsOf n = g.inputsOf n := by
    rw [inputsOf_eq_layout, hnode, ← inputsOf_eq_layout]
  refine ⟨by rw [requirement_eq_layout, hnode, ← requirement_eq_layout], ?_⟩
  rw [Graph.requiredInputs, hin]
  exact List.countP_congr fun p hp => by rw [hports p hp]

/-- A node changes, with the same inputs and the same requirement. -/
lemma modifyNode {f : Node σ → Node σ} (hf : m = n → ∀ node,
      (f node).inputs = node.inputs ∧ (f node).requiredIn = node.requiredIn) :
    g.SameDemand (g.modifyNode m f) n := by
  have hnode : ∀ {α : Type} (a : α) (k : Node σ → α),
      (m = n → ∀ node, k (f node) = k node) →
      ((g.modifyNode m f).nodes.get? n).elim a k = (g.nodes.get? n).elim a k := by
    intro α a k hk
    simp only [Graph.modifyNode, Arena.get?_modify]
    split
    · rename_i hmn
      cases g.nodes.get? n <;> simp [hk hmn]
    · rfl
  refine ⟨hnode 0 _ fun hmn node => (hf hmn node).2, ?_⟩
  rw [Graph.requiredInputs, inputsOf,
    hnode [] _ fun hmn node => congrArg Array.toList (hf hmn node).1]
  rfl

end SameDemand

@[simp] lemma isRequired_modifyNode (f : Node σ → Node σ) :
    (g.modifyNode m f).isRequired = g.isRequired :=
  rfl

lemma get?_modifyNode_self (g : Graph σ) (n : NodeId) (f : Node σ → Node σ) :
    (g.modifyNode n f).nodes.get? n = (g.nodes.get? n).map f :=
  Arena.get?_modify_self _ _ _

/-- Ports that go do not change what is required of others. -/
lemma isRequired_foldl_dropPort {ports : List PortId} (hp : p ∉ ports) (g : Graph σ) :
    (ports.foldl dropPort g).isRequired p = g.isRequired p := by
  induction ports generalizing g with
  | nil => rfl
  | cons q ports ih =>
      rw [List.mem_cons, not_or] at hp
      rw [List.foldl_cons, ih hp.2, isRequired_dropPort, Function.update_of_ne hp.1]

/-- The inputs of a live node are ports of that node. -/
lemma Tidy.owner_of_mem_inputsOf (h : g.Tidy) (hp : p ∈ g.inputsOf n) :
    ∃ port, g.ports.get? p = some port ∧ port.owner = n ∧ port.direction = .input := by
  rw [h.shows.inputsOf_eq] at hp
  obtain ⟨port', hport', ho, hd⟩ := h.layout.mem_portsOf.mp hp
  obtain ⟨port, hport, rfl⟩ := h.shows.exists_port hport'
  exact ⟨port, hport, ho, hd⟩

end Graph

/-! ### What an action can do -/

namespace Action

/-- An action that may raise the requirement of a node: an override, or a further
input that is not optional. -/
def raises (n : NodeId) : Action σ → Bool
  | setRequiredIn m _ => m = n
  | addPort m .input flags => m = n && !flags.optional
  | _ => false

/-- What an action can do to the two numbers of a node. -/
inductive Effect (g g' : Graph σ) (n : NodeId) : Action σ → Prop
  /-- Nothing. An action that may raise the requirement was refused. -/
  | kept {a : Action σ} : g.SameDemand g' n →
      (a.raises n = true → g.requiredInputs n = 0 ∨ g.requirement n = requiredLimit) →
      Effect g g' n a
  /-- The node goes. -/
  | removed : g'.requirement n = 0 → g'.requiredInputs n = 0 →
      Effect g g' n (.removeNode n)
  /-- A required input comes. -/
  | grown {flags : PortFlags} : flags.optional = false →
      g'.requirement n = g.requirement n + 1 →
      g'.requiredInputs n = g.requiredInputs n + 1 →
      Effect g g' n (.addPort n .input flags)
  /-- A required input goes. -/
  | shrunk {p : PortId} : p ∈ g.inputsOf n → g.isRequired p = true →
      g'.requirement n = g.requirement n - 1 →
      g'.requiredInputs n + 1 = g.requiredInputs n →
      Effect g g' n (.removePort p)
  /-- The requirement is overridden. -/
  | overridden {k : Nat} : g'.requirement n = k →
      g'.requiredInputs n = g.requiredInputs n →
      Effect g g' n (.setRequiredIn n k)

end Action

namespace Graph

variable {g : Graph σ} {n : NodeId}

/-- A dead node has no required inputs. -/
lemma requiredInputs_of_dead (hn : g.nodes.get? n = none) : g.requiredInputs n = 0 := by
  simp [requiredInputs, inputsOf, hn]

namespace Tidy

open MediaGraph.Action (Effect)

lemma effect_addNode (x : σ) : Effect g ((Graph.addNode x).run g).2 n (.addNode x) := by
  refine .kept ?_ (by simp [Action.raises])
  simp only [Graph.addNode, ExceptT.run]
  rcases eq_or_ne n g.nodes.fresh with rfl | hne
  · -- the fresh node is not live before, and has no ports afterwards
    constructor <;>
      simp [requirement, requiredInputs, inputsOf, get?_fresh, Arena.get?_insert]
  · refine .of_layout ?_ fun _ _ => rfl
    simp [Graph.layout, Arena.get?_insert, hne]

lemma effect_removeNode (h : g.Tidy) (m : NodeId) :
    Effect g ((Graph.removeNode m).run g).2 n (.removeNode m) := by
  simp only [Graph.removeNode, ExceptT.run]
  rcases hm : g.nodes.get? m with _ | node
  · exact .kept (.refl g n) (by simp [Action.raises])
  · simp only [← Array.foldl_toList]
    rcases eq_or_ne n m with rfl | hne
    · refine .removed ?_ ?_ <;> simp [requirement, requiredInputs, inputsOf]
    · refine .kept (.of_layout ?_ fun p hp => ?_) (by simp [Action.raises])
      · rw [layout_eraseNode, layout_foldl_dropPort, Layout.node_foldl_drop]
        exact Function.update_of_ne hne _ _
      · -- an input of another node does not go
        obtain ⟨port, hport, ho, -⟩ := h.owner_of_mem_inputsOf hp
        refine isRequired_foldl_dropPort (fun hmem => ?_) _
        obtain ⟨d, hd⟩ := (mem_ports_iff hm).mp hmem
        obtain ⟨port', hport', ho', -⟩ := h.layout.mem_portsOf.mp hd
        rw [h.shows.port hport, Option.some.injEq] at hport'
        rw [← ho, ← ho', ← hport'] at hne
        exact hne rfl

lemma effect_addPort (h : g.Tidy) (m : NodeId) (d : Direction) (flags : PortFlags) :
    Effect g ((Graph.addPort m d flags).run g).2 n (.addPort m d flags) := by
  have hraises : (Action.addPort (σ := σ) m d flags).raises n = true →
      m = n ∧ d = .input ∧ flags.optional = false := by
    cases d <;> simp [Action.raises]
  simp only [Graph.addPort, ExceptT.run]
  rcases hm : g.nodes.get? m with _ | node
  · refine .kept (.refl g n) fun hr => Or.inl ?_
    rw [← (hraises hr).1]
    exact requiredInputs_of_dead hm
  · simp only
    set port : Port := { direction := d, owner := m, flags } with hport
    split
    · rename_i hfull
      rw [Bool.and_eq_true, decide_eq_true_eq] at hfull
      refine .kept (.refl g n) fun hr => Or.inr ?_
      rw [← (hraises hr).1, requirement, hm]
      exact hfull.2
    · set grown : Graph σ := { g with ports := g.ports.insert port } with hgrown
      have hnew : grown.isRequired g.ports.fresh = port.isRequired := by
        simp [hgrown, isRequired, Arena.get?_insert]
      -- the ports that were there before are as they were
      have hold : ∀ p ∈ g.inputsOf n, grown.isRequired p = g.isRequired p := by
        intro p hp
        obtain ⟨port', hp', -⟩ := h.owner_of_mem_inputsOf hp
        have hne : p ≠ g.ports.fresh := by
          rintro rfl
          simp [get?_fresh] at hp'
        simp [hgrown, isRequired, Arena.get?_insert, hne]
      have hgrows : g.SameDemand grown n := .of_layout rfl hold
      rcases eq_or_ne m n with rfl | hne
      · cases d with
        | output =>
            have hfalse : port.isRequired = false := by simp [hport, Port.isRequired]
            refine .kept (hgrows.trans (.modifyNode fun _ node => ?_)) (by simp [Action.raises])
            simp [hfalse]
        | input =>
            have hcount := hgrows.requiredInputs
            have hlive : grown.nodes.get? m = some node := hm
            simp only [requiredInputs, inputsOf, hm, hlive, Option.elim_some] at hcount
            have hpush : (node.inputs.push g.ports.fresh).toList.countP grown.isRequired =
                node.inputs.toList.countP g.isRequired + if port.isRequired then 1 else 0 := by
              rw [Array.toList_push, List.countP_append, hcount, List.countP_singleton, hnew]
            rcases hreq : port.isRequired
            · refine .kept ⟨?_, ?_⟩ fun hr => ?_
              · simp [requirement, get?_modifyNode_self, hlive, hm]
              · simpa [requiredInputs, inputsOf, get?_modifyNode_self, hlive, hm, hreq] using hpush
              · simp [hport, Port.isRequired, (hraises hr).2.2] at hreq
            · refine .grown (by simpa [hport, Port.isRequired] using hreq) ?_ ?_
              · simp [requirement, get?_modifyNode_self, hlive, hm]
              · simpa [requiredInputs, inputsOf, get?_modifyNode_self, hlive, hm, hreq] using hpush
      · refine .kept (hgrows.trans (.modifyNode fun hmn => absurd hmn hne)) fun hr => ?_
        exact absurd (hraises hr).1 hne

/-- Its owner requires one input less than before if a required input is removed. -/
lemma removePort_owner (h : g.Tidy) {p : PortId} {port : Port}
    (hp : g.ports.get? p = some port) :
    (((Graph.removePort p).run g).2.requirement port.owner =
      g.requirement port.owner - if port.isRequired = true then 1 else 0) ∧
    (((Graph.removePort p).run g).2.requiredInputs port.owner +
      if port.isRequired = true then 1 else 0) = g.requiredInputs port.owner := by
  obtain ⟨node, hn, -⟩ := h.linked.listed hp
  have hlayout : (g.dropPort p).layout.node port.owner = some node.layout := by
    rw [layout_dropPort, Layout.node_drop, h.shows.node hn]
  obtain ⟨node', hn', hlayout⟩ := Option.map_eq_some_iff.mp hlayout
  have hin : node'.inputs = node.inputs := congrArg NodeLayout.inputs hlayout
  have hrequired : node'.requiredIn = node.requiredIn :=
    congrArg NodeLayout.requiredIn hlayout
  have hmem : (p ∈ node.inputs.toList ∧ g.isRequired p = true) ↔
      port.isRequired = true := by
    simp only [h.mem_inputs_iff hn hp, isRequired, hp, Option.any_some, true_and,
      and_iff_right_iff_imp, Port.isRequired, Bool.and_eq_true, decide_eq_true_eq]
    exact And.left
  have hcount : (node'.inputs.toList.filter (· ≠ p)).countP (g.dropPort p).isRequired =
      g.requiredInputs port.owner - if port.isRequired = true then 1 else 0 := by
    rw [isRequired_dropPort, countP_filter_ne _ (Function.update_self _ _ _), hin,
      countP_unmark (h.listing.nodup hn), requiredInputs, inputsOf, hn, Option.elim_some]
    simp only [hmem]
  have hpos : port.isRequired = true → 0 < g.requiredInputs port.owner := by
    intro hr
    rw [requiredInputs, inputsOf, hn]
    exact List.countP_pos_iff.mpr ⟨p, hmem.mpr hr⟩
  simp only [Graph.removePort, ExceptT.run, hp, hn']
  constructor
  · simp only [requirement, get?_modifyNode_self, hn', hn, Option.map_some,
      Option.elim_some, hrequired]
    split <;> rfl
  · rw [requiredInputs, inputsOf, get?_modifyNode_self, hn', Option.map_some,
      Option.elim_some, isRequired_modifyNode, Array.toList_filter, hcount]
    split
    · exact Nat.sub_add_cancel (hpos (by assumption))
    · rfl

/-- Another node keeps its inputs. -/
lemma sameDemand_removePort (h : g.Tidy) {p : PortId}
    (hp : (g.ports.get? p).map (·.owner) ≠ some n) :
    g.SameDemand ((Graph.removePort p).run g).2 n := by
  have hdrop : g.SameDemand (g.dropPort p) n := by
    refine .of_layout (by rw [layout_dropPort, Layout.node_drop]) fun q hq => ?_
    rw [isRequired_dropPort, Function.update_of_ne]
    rintro rfl
    obtain ⟨port, hport, ho, -⟩ := h.owner_of_mem_inputsOf hq
    exact hp (by rw [hport, Option.map_some, ho])
  simp only [Graph.removePort, ExceptT.run]
  rcases hport : g.ports.get? p with _ | port
  · exact .refl g n
  · simp only
    split
    · exact hdrop
    · refine hdrop.trans (.modifyNode fun hmn => absurd ?_ hp)
      rw [hport, Option.map_some, hmn]

/-- A port that is removed is a required input of its owner, or of no node. -/
lemma effect_removePort (h : g.Tidy) (p : PortId) :
    Effect g ((Graph.removePort p).run g).2 n (.removePort p) := by
  by_cases hp : (g.ports.get? p).map (·.owner) = some n
  · obtain ⟨port, hport, rfl⟩ := Option.map_eq_some_iff.mp hp
    obtain ⟨hrequirement, hinputs⟩ := h.removePort_owner hport
    rcases hr : port.isRequired
    · rw [hr, if_neg Bool.false_ne_true] at hrequirement hinputs
      exact .kept ⟨hrequirement, hinputs⟩ (by simp [Action.raises])
    · rw [hr, if_pos rfl] at hrequirement hinputs
      obtain ⟨node, hn, -⟩ := h.linked.listed hport
      refine .shrunk ?_ (by simpa [isRequired, hport] using hr) hrequirement hinputs
      rw [inputsOf, hn, Option.elim_some, h.mem_inputs_iff hn hport]
      simp only [Port.isRequired, Bool.and_eq_true, decide_eq_true_eq] at hr
      exact ⟨rfl, hr.1⟩
  · exact .kept (h.sameDemand_removePort hp) (by simp [Action.raises])

lemma sameDemand_link (h : g.Tidy) (p q : PortId) :
    g.SameDemand ((Graph.link p q).run g).2 n := by
  rcases hr : (Graph.link p q).run g with ⟨e | s, g'⟩
  · rw [link_refused hr]
    exact .refl g n
  · obtain ⟨out, inp, -, -, -, -, -, -, -, rfl, -⟩ := h.toWellFormed.link hr
    refine .of_layout rfl fun r _ => ?_
    simp only [isRequired, Graph.modifyPort, Arena.get?_modify]
    split <;> split <;> cases g.ports.get? r <;> rfl

lemma sameDemand_unlink (p q : PortId) : g.SameDemand ((Graph.unlink p q).run g).2 n := by
  have hbreak : g.SameDemand (g.breakLink p) n := by
    refine .of_layout ?_ fun r _ => by rw [isRequired_breakLink]
    rw [layout_breakLink, Layout.node_cut]
  simp only [Graph.unlink, ExceptT.run]
  repeat' split
  all_goals first
    | exact .refl g n
    | exact hbreak

lemma effect_setRequiredIn (m : NodeId) (k : Nat) :
    Effect g ((Graph.setRequiredIn m k).run g).2 n (.setRequiredIn m k) := by
  simp only [Graph.setRequiredIn, ExceptT.run]
  rcases hm : g.nodes.get? m with _ | node
  · refine .kept (.refl g n) fun hr => Or.inl ?_
    obtain rfl : m = n := by simpa [Action.raises] using hr
    exact requiredInputs_of_dead hm
  · rcases eq_or_ne m n with rfl | hne
    · refine .overridden ?_ ?_
      · simp [requirement, get?_modifyNode_self, hm]
      · simp [requiredInputs, inputsOf, get?_modifyNode_self, hm]
    · exact .kept (.modifyNode fun hmn => absurd hmn hne) (by simp [Action.raises, hne])

lemma sameDemand_writeSlot (p : PortId) (f : Slot → Slot) :
    g.SameDemand (g.modifySlotOf p f) n := by
  unfold Graph.modifySlotOf
  split
  · exact .of_layout rfl fun _ _ => rfl
  · exact .refl g n

variable [Processor σ]

lemma sameDemand_reuseBuffer (p : PortId) (b : BufferId) :
    g.SameDemand ((Graph.reuseBuffer p b).run g).2 n := by
  simp only [Graph.reuseBuffer, ExceptT.run]
  repeat' split
  all_goals first
    | exact .refl g n
    | exact .modifyNode fun _ _ => ⟨rfl, rfl⟩

lemma sameDemand_activate (h : g.Tidy) (budget : Nat) (mode : Mode) (m : NodeId) :
    g.SameDemand (g.activate budget mode m).graph n := by
  have hlayout := h.layout_activate budget mode m
  exact .of_layout (by rw [hlayout]) fun p _ => by
    rw [isRequired_eq_layout, hlayout, ← isRequired_eq_layout]

/-- Every action has one of these effects on every node. -/
theorem effect (h : g.Tidy) (a : Action σ) (n : NodeId) : Effect g (a.perform g).2 n a := by
  cases a with
  | addNode x =>
      rw [Action.perform, Action.snd_issue]
      exact effect_addNode x
  | removeNode m => exact h.effect_removeNode m
  | addPort m d flags =>
      rw [Action.perform, Action.snd_issue]
      exact h.effect_addPort m d flags
  | removePort p => exact h.effect_removePort p
  | link p q =>
      rw [Action.perform, Action.snd_issue]
      exact .kept (h.sameDemand_link p q) (by simp [Action.raises])
  | unlink p q => exact .kept (sameDemand_unlink p q) (by simp [Action.raises])
  | setRequiredIn m k => exact effect_setRequiredIn m k
  | setFlags m flags =>
      refine .kept ?_ (by simp [Action.raises])
      simp only [Action.perform, Graph.setFlags, ExceptT.run]
      split
      · exact .refl g n
      · exact .modifyNode fun _ _ => ⟨rfl, rfl⟩
  | reuseBuffer p b => exact .kept (sameDemand_reuseBuffer p b) (by simp [Action.raises])
  | writeSlot p c => exact .kept (sameDemand_writeSlot p _) (by simp [Action.raises])
  | activate budget mode m =>
      exact .kept (h.sameDemand_activate budget mode m) (by simp [Action.raises])

end Tidy

end Graph

/-! ### Histories -/

namespace Action

variable [Processor σ] {actions pre post : List (Action σ)} {n : NodeId} {p : PortId}

/-- Every override asks for at least one input, and for no more than the node then has
that are not optional. -/
def Lawful (actions : List (Action σ)) : Prop :=
  ∀ pre n k, pre ++ [.setRequiredIn n k] <+: actions →
    1 ≤ k ∧ k ≤ (graph pre).requiredInputs n

/-- A node that required one of several inputs lost one of them, and nothing that
could raise its requirement was done since. -/
def Undercut (actions : List (Action σ)) (n : NodeId) : Prop :=
  ∃ pre p post, actions = pre ++ .removePort p :: post ∧ p ∈ (graph pre).inputsOf n ∧
    (graph pre).isRequired p = true ∧ (graph pre).requirement n = 1 ∧
    1 < (graph pre).requiredInputs n ∧ ∀ a ∈ post, a.raises n = false

lemma lawful_concat {a : Action σ} : Lawful (actions ++ [a]) ↔ Lawful actions ∧
    ∀ n k, a = .setRequiredIn n k → 1 ≤ k ∧ k ≤ (graph actions).requiredInputs n := by
  simp only [Lawful, List.prefix_concat_iff]
  constructor
  · intro h
    exact ⟨fun pre n k hpre => h pre n k (Or.inr hpre), fun n k ha => h actions n k
      (Or.inl (by rw [ha]))⟩
  · rintro ⟨hold, hlast⟩ pre n k (he | hpre)
    · obtain ⟨rfl, ha⟩ := List.append_inj' he rfl
      exact hlast n k (List.singleton_inj.mp ha).symm
    · exact hold pre n k hpre

/-- What an action does to a node in the graph that other actions made. -/
lemma effect_graph (actions : List (Action σ)) (a : Action σ) (n : NodeId) :
    Effect (graph actions) (graph (actions ++ [a])) n a := by
  rw [graph_concat]
  exact (tidy_graph actions).effect a n

/-- After lawful overrides a node requires no more than it could be given. -/
lemma Lawful.requirement_le (h : Lawful actions) (n : NodeId) :
    (graph actions).requirement n ≤ (graph actions).requiredInputs n := by
  induction actions using List.reverseRecOn with
  | nil => exact Nat.le_refl 0
  | append_singleton actions a ih =>
      obtain ⟨hold, hlast⟩ := lawful_concat.mp h
      have hle := ih hold
      have heffect := effect_graph actions a n
      cases heffect with
      | kept hs => rw [hs.requirement, hs.requiredInputs]; exact hle
      | removed hreq hin => omega
      | grown _ hreq hin => omega
      | shrunk _ _ hreq hin => omega
      | overridden hreq hin =>
          have := (hlast n _ rfl).2
          omega

/-- What requires nothing requires nothing until something raises its
requirement. -/
lemma requirement_append_eq_zero (h : (graph pre).requirement n = 0)
    (hpost : ∀ a ∈ post, a.raises n = false) : (graph (pre ++ post)).requirement n = 0 := by
  induction post using List.reverseRecOn with
  | nil => rwa [List.append_nil]
  | append_singleton post a ih =>
      have hzero := ih fun b hb => hpost b (List.mem_append_left _ hb)
      have hquiet := hpost a (List.mem_append_right _ (List.mem_singleton_self a))
      have heffect := effect_graph (pre ++ post) a n
      rw [List.append_assoc] at heffect
      cases heffect with
      | kept hs => rw [hs.requirement, hzero]
      | removed hreq => exact hreq
      | grown hflags => simp [raises, hflags] at hquiet
      | shrunk _ _ hreq => rw [hreq, hzero]
      | overridden => simp [raises] at hquiet

/-- An undercut node requires nothing. -/
lemma Undercut.requirement_eq_zero (h : Undercut actions n) :
    (graph actions).requirement n = 0 := by
  obtain ⟨pre, p, post, rfl, hp, hreq, hone, hmany, hpost⟩ := h
  rw [List.append_cons]
  refine requirement_append_eq_zero ?_ hpost
  obtain ⟨port, hport, rfl, -⟩ := (tidy_graph pre).owner_of_mem_inputsOf hp
  rw [Graph.isRequired, hport, Option.any_some] at hreq
  rw [graph_concat]
  have hless := ((tidy_graph pre).removePort_owner hport).1
  rwa [hreq, if_pos rfl, hone] at hless

/-- After lawful overrides a node that requires none of its required inputs is
undercut. -/
lemma Lawful.undercut (h : Lawful actions) (hin : 0 < (graph actions).requiredInputs n)
    (hzero : (graph actions).requirement n = 0) : Undercut actions n := by
  induction actions using List.reverseRecOn with
  | nil => cases hin
  | append_singleton actions a ih =>
      obtain ⟨hold, hlast⟩ := lawful_concat.mp h
      have hgoes : (graph actions).requirement n = 0 → 0 < (graph actions).requiredInputs n →
          a.raises n = false → Undercut (actions ++ [a]) n := by
        intro hz hi hquiet
        obtain ⟨pre, p, post, rfl, hp, hreq, hone, hmany, hpost⟩ := ih hold hi hz
        refine ⟨pre, p, post ++ [a], by simp, hp, hreq, hone, hmany, fun b hb => ?_⟩
        rcases List.mem_append.mp hb with hb | hb
        · exact hpost b hb
        · rwa [List.mem_singleton.mp hb]
      have heffect := effect_graph actions a n
      cases heffect with
      | kept hs hrefused =>
          rw [hs.requirement] at hzero
          rw [hs.requiredInputs] at hin
          refine hgoes hzero hin (Bool.eq_false_iff.mpr fun hr => ?_)
          rcases hrefused hr with h' | h' <;> simp [requiredLimit] at * <;> omega
      | removed _ hgone => omega
      | grown _ hreq => omega
      | @shrunk p hp hr hreq hless =>
          rcases Nat.eq_zero_or_pos ((graph actions).requirement n) with hz | hpos
          · exact hgoes hz (by omega) rfl
          · exact ⟨actions, p, [], rfl, hp, hr, by omega, by omega, by simp⟩
      | overridden hreq hsame =>
          have := (hlast n _ rfl).1
          omega

end Action

/-! ### Activations -/

namespace Graph

variable [Processor σ] {g : Graph σ} {n m : NodeId}

omit [Processor σ] in
/-- A live node demands nothing exactly if it requires none of its required inputs. -/
lemma demandsNothing_iff {node : Node σ} (hn : g.nodes.get? n = some node) :
    g.demandsNothing node = true ↔ g.requirement n = 0 ∧ 0 < g.requiredInputs n := by
  simp only [demandsNothing, requirement, requiredInputs, inputsOf, hn, Option.elim_some,
    Bool.and_eq_true, decide_eq_true_eq, List.countP_pos_iff, Array.any_eq_true']
  simp [isRequired]

/-- An activation that stops for this reason stops at a node that requires none of its
required inputs. -/
lemma Tidy.demandsNothing_of_activate (htidy : g.Tidy) (htallied : g.Tallied) {budget : Nat}
    {mode : Mode} (h : (g.activate budget mode m).result = .error (.nothingRequired n)) :
    g.requirement n = 0 ∧ 0 < g.requiredInputs n := by
  cases htallied.aborts htidy h with
  | @stuck pre t turn _ node hturns _ hn hd =>
      obtain ⟨ht, -⟩ := takesTurns_of_mem_turns
        (hturns ▸ List.mem_append_right _ (List.mem_singleton_self _))
      obtain ⟨s, hs, hst⟩ := htallied.exists_start htidy mode m
      obtain ⟨u, hu, -⟩ := ht.shows htidy.layout hs hst
      -- the turns leave the structure alone
      obtain ⟨old, hold, -⟩ := htidy.shows.exists_node (hu.node hn)
      rw [← demandsNothing_iff hold, htidy.shows.demandsNothing htidy.layout hold,
        ← hu.demandsNothing htidy.layout hn]
      exact hd

/-- A pull of such a node stops at once. -/
lemma Tidy.nothingRequired_of_pull (htidy : g.Tidy) (hzero : g.requirement n = 0)
    (hin : 0 < g.requiredInputs n) {budget : Nat} (hbudget : 0 < budget) :
    (g.activate budget .pull n).result = .error (.nothingRequired n) := by
  rcases hn : g.nodes.get? n with _ | node
  · rw [requiredInputs_of_dead hn] at hin
    cases hin
  · have hdemand : g.layout.network.demandsNothing n = true := by
      rw [← htidy.shows.demandsNothing htidy.layout hn]
      exact (demandsNothing_iff hn).mpr ⟨hzero, hin⟩
    have hprocessor : (g.flow.start .pull n).processor n = some node.processor := by
      simp [Flow.start, Flow.enqueue, Flow.setPhase, Graph.flow, hn]
    refine htidy.activate_of_failure hn hbudget ?_
    rw [Network.serve, hprocessor]
    simp [Network.serveNode, Flow.start, Flow.enqueue, Flow.setPhase, Flow.dequeue,
      Flow.countTurn, Mode.phase, hdemand]

end Graph

/-! ### Lawful histories -/

namespace Action

variable [Processor σ]

/-- After lawful overrides a node requires no more inputs than it has that are not
optional. One that has such inputs requires none exactly if it was undercut: it required
one of several, one of them was removed, and nothing raised its requirement since. These
are the nodes that an activation can stop at because they require nothing of their
required inputs, and a pull of such a node stops there. -/
theorem nothingRequired_iff_undercut {actions : List (Action σ)} (h : Lawful actions)
    (n : NodeId) :
    (graph actions).requirement n ≤ (graph actions).requiredInputs n ∧
    (0 < (graph actions).requiredInputs n →
      ((graph actions).requirement n = 0 ↔ Undercut actions n)) ∧
    (∀ budget mode m,
      ((graph actions).activate budget mode m).result = .error (.nothingRequired n) →
        0 < (graph actions).requiredInputs n ∧ Undercut actions n) ∧
    ∀ budget, 0 < budget →
      (((graph actions).activate budget .pull n).result = .error (.nothingRequired n) ↔
        0 < (graph actions).requiredInputs n ∧ Undercut actions n) := by
  have hstops : ∀ {budget mode m},
      ((graph actions).activate budget mode m).result = .error (.nothingRequired n) →
        0 < (graph actions).requiredInputs n ∧ Undercut actions n := by
    intro budget mode m hstop
    obtain ⟨hzero, hin⟩ :=
      (tidy_graph actions).demandsNothing_of_activate (tallied_graph actions) hstop
    exact ⟨hin, h.undercut hin hzero⟩
  refine ⟨h.requirement_le n, fun hin => ⟨h.undercut hin, Undercut.requirement_eq_zero⟩,
    fun _ _ _ => hstops, fun budget hbudget => ⟨hstops, fun ⟨hin, hundercut⟩ => ?_⟩⟩
  exact (tidy_graph actions).nothingRequired_of_pull hundercut.requirement_eq_zero hin hbudget

/-- A sink with two inputs that is told to require one of them and then loses the
other. -/
def starved : List (Action (Adapter Empty)) :=
  [.addNode (.sink {}), .addPort ⟨0⟩ .input {}, .addPort ⟨0⟩ .input {},
    .setRequiredIn ⟨0⟩ 1, .removePort ⟨0⟩]

lemma lawful_starved : Lawful starved := by
  rintro pre n k ⟨post, hpre⟩
  -- the override is the fourth action
  rcases pre with _ | ⟨a, _ | ⟨b, _ | ⟨c, _ | ⟨d, _ | ⟨e, pre⟩⟩⟩⟩⟩ <;>
    simp [starved] at hpre
  obtain ⟨rfl, rfl, rfl, ⟨rfl, rfl⟩, -⟩ := hpre
  decide +kernel

/-- A pull of this sink stops at it, and it is undercut. -/
theorem nothingRequired_starved :
    Lawful starved ∧ ((graph starved).activate 8 .pull ⟨0⟩).result =
      .error (.nothingRequired ⟨0⟩) ∧ Undercut starved ⟨0⟩ := by
  have hstops : ((graph starved).activate 8 .pull ⟨0⟩).result =
      .error (.nothingRequired ⟨0⟩) := by decide +kernel
  exact ⟨lawful_starved, hstops,
    ((nothingRequired_iff_undercut lawful_starved ⟨0⟩).2.2.1 8 .pull ⟨0⟩ hstops).2⟩

/-- Its only override is lawful, it has an input that is not optional, and yet it
requires nothing, so that a pull of it stops there. -/
theorem requirement_lost :
    Lawful starved ∧ (graph starved).requiredInputs ⟨0⟩ = 1 ∧
    (graph starved).requirement ⟨0⟩ = 0 ∧
    ((graph starved).pull ⟨0⟩).result = .error (.nothingRequired ⟨0⟩) :=
  ⟨lawful_starved, by decide +kernel, by decide +kernel, by decide +kernel⟩

end Action

end MediaGraph

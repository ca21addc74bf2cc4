/-
Names are given out once.

* `Graph.Creates`: one entry is created, under the name that follows on the
  names of its kind;
* `Action.perform_cases`: an action creates one entry and gives out its name, or
  gives out no name and creates nothing;
* `Action.nodup_names`: no name is given out twice;
* `Action.not_isLive_append`: a name that was given out and is not live any more
  is never live again.
-/
import Mathlib.Logic.Function.Basic
import MediaGraph.Proofs.Sizes

namespace MediaGraph

variable {σ : Type}

namespace Graph

/-- One entry is created on the way from `g` to `g'`, and `x` is its name. -/
structure Creates (g : Graph σ) (x : Name) (g' : Graph σ) : Prop where
  index : x.handle.index = g.created x.kind
  created : g'.created =
    Function.update g.created x.kind (g.created x.kind + 1)
  live : ∀ y, g'.isLive y = true → y = x ∨ g.isLive y = true

lemma contains_insert {k : Kind} {α : Type} (a : Arena k α) (x : α)
    (h : Handle k) :
    (a.insert x).contains h = true ↔ h = a.fresh ∨ a.contains h = true := by
  rw [Arena.contains, Arena.get?_insert]
  split
  · simp_all
  · simp_all [Arena.contains]

lemma contains_modify {k : Kind} {α : Type} (a : Arena k α) (h h' : Handle k)
    (f : α → α) : (a.modify h f).contains h' = a.contains h' :=
  Shrinks.isSome_get?_modify a h h' f

lemma creates_node (g : Graph σ) (node : Node σ) (q : ReadyQueue) :
    g.Creates ⟨.node, g.nodes.fresh⟩
      { g with nodes := g.nodes.insert node, ready := q } where
  index := rfl
  created := by
    funext k
    cases k <;> simp [Graph.created]
  live := by
    rintro ⟨k, h⟩ hy
    cases k
    · exact ((contains_insert _ _ _).mp hy).imp_left (congrArg (Name.mk .node))
    · exact Or.inr hy
    · exact Or.inr hy

lemma creates_port (g : Graph σ) (port : Port) (n : NodeId)
    (f : Node σ → Node σ) :
    g.Creates ⟨.port, g.ports.fresh⟩
      (Graph.modifyNode { g with ports := g.ports.insert port } n f) where
  index := rfl
  created := by
    funext k
    cases k <;> simp [Graph.created, Graph.modifyNode]
  live := by
    rintro ⟨k, h⟩ hy
    cases k
    · exact Or.inr ((contains_modify _ _ _ _).symm.trans hy)
    · exact ((contains_insert _ _ _).mp hy).imp_left (congrArg (Name.mk .port))
    · exact Or.inr hy

lemma creates_slot (g : Graph σ) (c : Slot) (p q : PortId) (f f' : Port → Port) :
    g.Creates ⟨.slot, g.slots.fresh⟩
      ((Graph.modifyPort { g with slots := g.slots.insert c } p f).modifyPort q
        f') where
  index := rfl
  created := by
    funext k
    cases k <;> simp [Graph.created, Graph.modifyPort]
  live := by
    rintro ⟨k, h⟩ hy
    cases k
    · exact Or.inr hy
    · refine Or.inr ((?_ : _ = _).trans hy)
      exact ((contains_modify _ _ _ _).trans (contains_modify _ _ _ _)).symm
    · exact ((contains_insert _ _ _).mp hy).imp_left (congrArg (Name.mk .slot))

end Graph

namespace Action

variable [Processor σ]

/-- An action creates one entry and gives out its name, or it gives out no name
and creates nothing. -/
theorem perform_cases (a : Action σ) (g : Graph σ) :
    ((a.perform g).1 = none ∧ g.Shrinks (a.perform g).2) ∨
      ∃ x, (a.perform g).1 = some x ∧ g.Creates x (a.perform g).2 := by
  have hrefl := Graph.Shrinks.refl g
  cases a with
  | addNode processor =>
      exact Or.inr ⟨_, rfl, g.creates_node _ _⟩
  | addPort n direction flags =>
      simp only [perform, Graph.addPort, ExceptT.run]
      rcases g.nodes.get? n with _ | node
      · exact Or.inl ⟨rfl, hrefl⟩
      · simp only
        split
        · exact Or.inl ⟨rfl, hrefl⟩
        · exact Or.inr ⟨_, rfl, g.creates_port _ n _⟩
  | link p q =>
      simp only [perform, Graph.link, ExceptT.run]
      repeat' split
      all_goals first
        | exact Or.inl ⟨rfl, hrefl⟩
        | exact Or.inr ⟨_, rfl, g.creates_slot _ p q _ _⟩
  | removeNode n => exact Or.inl ⟨rfl, .removeNode g n⟩
  | removePort p => exact Or.inl ⟨rfl, .removePort g p⟩
  | unlink p q => exact Or.inl ⟨rfl, .unlink g p q⟩
  | setRequiredIn n required => exact Or.inl ⟨rfl, .setRequiredIn g n required⟩
  | setFlags n flags => exact Or.inl ⟨rfl, .setFlags g n flags⟩
  | reuseBuffer p b => exact Or.inl ⟨rfl, .reuseBuffer g p b⟩
  | writeSlot p c => exact Or.inl ⟨rfl, .modifySlotOf g p _⟩
  | activate budget mode n => exact Or.inl ⟨rfl, .activate budget mode n g⟩

/-- Entries are created and never uncreated. -/
lemma created_le (a : Action σ) (g : Graph σ) (k : Kind) :
    g.created k ≤ (a.perform g).2.created k := by
  rcases a.perform_cases g with ⟨-, h⟩ | ⟨x, -, h⟩
  · exact Nat.le_of_eq (congrFun h.created k).symm
  · rw [h.created, Function.update_apply]
    split
    · subst_vars
      omega
    · exact Nat.le_refl _

/-- An entry was created under every name that was given out. -/
lemma index_lt_created {actions : List (Action σ)} {x : Name}
    (hx : x ∈ names actions) : x.handle.index < (graph actions).created x.kind := by
  induction actions using List.reverseRecOn with
  | nil => simp at hx
  | append_singleton actions a ih =>
      rw [names_concat, List.mem_append] at hx
      rw [graph_concat]
      rcases hx with hx | hx
      · exact Nat.lt_of_lt_of_le (ih hx) (a.created_le _ _)
      · rcases a.perform_cases (graph actions) with ⟨hnone, -⟩ | ⟨y, hy, h⟩
        · simp [hnone] at hx
        · obtain rfl : x = y := by simpa [hy] using hx
          rw [h.created, Function.update_self, h.index]
          exact Nat.lt_succ_self _

/-- No name is given out twice. -/
theorem nodup_names (actions : List (Action σ)) : (names actions).Nodup := by
  induction actions using List.reverseRecOn with
  | nil => exact List.nodup_nil
  | append_singleton actions a ih =>
      rw [names_concat]
      rcases a.perform_cases (graph actions) with ⟨hnone, -⟩ | ⟨y, hy, h⟩
      · simpa [hnone] using ih
      · have hnew : y ∉ names actions := fun hmem => by
          have := index_lt_created hmem
          have := h.index
          omega
        rw [hy, Option.toList_some, List.nodup_append]
        refine ⟨ih, List.nodup_singleton y, fun x hx z hz he => hnew ?_⟩
        obtain rfl := List.mem_singleton.mp hz
        exact he ▸ hx

/-- A name that was given out and is not live any more is never live again. -/
theorem not_isLive_append (actions later : List (Action σ)) {x : Name}
    (hx : x ∈ names actions) (hdead : (graph actions).isLive x = false) :
    (graph (actions ++ later)).isLive x = false := by
  have hkey : x.handle.index < (graph (actions ++ later)).created x.kind ∧
      (graph (actions ++ later)).isLive x = false := by
    induction later using List.reverseRecOn with
    | nil => simpa using ⟨index_lt_created hx, hdead⟩
    | append_singleton later a ih =>
        obtain ⟨hlt, hdead'⟩ := ih
        rw [← List.append_assoc, graph_concat]
        refine ⟨Nat.lt_of_lt_of_le hlt (a.created_le _ _), ?_⟩
        rw [Bool.eq_false_iff] at hdead' ⊢
        intro hlive
        rcases a.perform_cases (graph (actions ++ later)) with ⟨-, h⟩ | ⟨y, -, h⟩
        · exact hdead' (h.live x hlive)
        · rcases h.live x hlive with rfl | hold
          · have := h.index
            omega
          · exact hdead' hold
  exact hkey.2

end Action

end MediaGraph

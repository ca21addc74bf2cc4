/-
Building a graph from plans of its nodes.

* `Plan`: a node as it is meant to be, with its processor, its inputs, the
  number of its outputs and its settings;
* `Graph.Follows`: the nodes of a graph follow a list of plans, its links a
  relation on nodes, and nothing has happened in it yet but that some nodes
  asked for data;
* `Follows.addNode`, `Follows.addInput`, `Follows.addOutput`,
  `Follows.setFlags`, `Follows.setRequiredIn`, `Follows.addLink`,
  `Follows.prime`: each edit changes the plans as expected.
-/
import MediaGraph.Proofs.Edits

namespace MediaGraph

variable {σ : Type}

/-! ### Actions that are carried out -/

namespace Edit

variable {α β : Type} {g g' : Graph σ}

/-- A sequence of two actions is carried out. -/
lemma run_bind_ok {m : Edit σ α} {f : α → Edit σ β} {y : β}
    (h : (m >>= f).run g = (.ok y, g')) :
    ∃ x g₁, m.run g = (.ok x, g₁) ∧ (f x).run g₁ = (.ok y, g') := by
  have hb : (m >>= f).run g = ExceptT.bindCont f (m.run g).1 (m.run g).2 := rfl
  rcases hm : m.run g with ⟨e | x, g₁⟩
  · rw [hb, hm] at h
    cases h
  · rw [hb, hm] at h
    exact ⟨x, g₁, rfl, h⟩

lemma run_pure_ok {x y : α} (h : (pure x : Edit σ α).run g = (.ok y, g')) :
    x = y ∧ g = g' := by
  cases h
  exact ⟨rfl, rfl⟩

/-- An action is carried out for every number below `k`. -/
lemma run_forM_range {P : ℕ → Graph σ → Prop} {f : ℕ → Edit σ PUnit} {k : ℕ}
    {u : PUnit} (h : ((List.range k).forM f).run g = (.ok u, g')) (h0 : P 0 g)
    (hstep : ∀ i < k, ∀ g g', P i g → (f i).run g = (.ok ⟨⟩, g') → P (i + 1) g') :
    P k g' := by
  have key : ∀ (m i : ℕ) (g : Graph σ), i + m = k → P i g →
      ((List.range' i m).forM f).run g = (.ok u, g') → P k g' := by
    intro m
    induction m with
    | zero =>
        intro i g hi hP hr
        obtain ⟨-, rfl⟩ := run_pure_ok hr
        obtain rfl : i = k := by omega
        exact hP
    | succ m ih =>
        intro i g hi hP hr
        rw [List.range'_succ] at hr
        obtain ⟨⟨⟩, g₁, h₁, h₂⟩ := run_bind_ok hr
        exact ih (i + 1) g₁ (by omega) (hstep i (by omega) g g₁ hP h₁) h₂
  rw [List.range_eq_range'] at h
  exact key k 0 g (by omega) h0 h

end Edit

/-! ### Plans -/

/-- An element of a list with one more element at its end. -/
lemma getElem?_concat_eq_some {α : Type*} {l : List α} {x y : α} {i : ℕ} :
    (l ++ [x])[i]? = some y ↔ l[i]? = some y ∨ (i = l.length ∧ x = y) := by
  rcases Nat.lt_trichotomy i l.length with h | rfl | h
  · simp [List.getElem?_append_left h, Nat.ne_of_lt h]
  · simp
  · have h₁ : (l ++ [x])[i]? = none := by simp; omega
    have h₂ : l[i]? = none := by simp; omega
    simp [h₁, h₂, Nat.ne_of_gt h]

/-- An entry stays when another one is created. -/
lemma Arena.get?_insert_of_some {k : Kind} {α : Type} {a : Arena k α}
    {h : Handle k} {x y : α} (hx : a.get? h = some x) :
    (a.insert y).get? h = some x := by
  rw [Arena.get?_insert, if_neg]
  · exact hx
  · rintro rfl
    simp [Graph.get?_fresh] at hx

/-- A node as it is meant to be. -/
@[ext]
structure Plan (σ : Type) where
  processor : σ
  /-- For every input whether it is optional. -/
  inputs : List Bool
  outputs : Nat
  flags : NodeFlags
  requiredIn : Nat

/-- A node follows its plan, and no turn of it was taken yet. -/
structure Node.Follows (g : Graph σ) (node : Node σ) (plan : Plan σ) : Prop where
  processor : node.processor = plan.processor
  inputs : node.inputs.size = plan.inputs.length
  optional : ∀ (k : Nat) (p : PortId), node.inputs[k]? = some p →
    ∃ port, g.ports.get? p = some port ∧
      plan.inputs[k]? = some port.flags.optional
  outputs : node.outputs.size = plan.outputs
  flags : node.flags = plan.flags
  requiredIn : node.requiredIn = plan.requiredIn
  phase : node.phase = .checkInput
  readyIn : node.readyIn = 0

/-- A node follows its plan as long as its inputs keep their flags. -/
lemma Node.Follows.mono {g g' : Graph σ} {node : Node σ} {plan : Plan σ}
    (h : node.Follows g plan) (hp : ∀ p port, g.ports.get? p = some port →
      ∃ port', g'.ports.get? p = some port' ∧ port'.flags = port.flags) :
    node.Follows g' plan := by
  refine ⟨h.processor, h.inputs, fun k p hk => ?_, h.outputs, h.flags,
    h.requiredIn, h.phase, h.readyIn⟩
  obtain ⟨port, hport, hflag⟩ := h.optional k p hk
  obtain ⟨port', hport', hflags⟩ := hp p port hport
  exact ⟨port', hport', hflags ▸ hflag⟩

namespace Graph

/-- The nodes of a graph follow the plans and its links the relation `r`; of
all nodes those in `asked` have asked for data on their inputs, and nothing
else has happened yet. -/
structure Follows (g : Graph σ) (plans : List (Plan σ)) (r : Nat → Nat → Prop)
    (asked : NodeId → Bool) : Prop where
  wf : g.WellFormed
  size : g.nodes.size = plans.length
  node : ∀ i plan, plans[i]? = some plan →
    ∃ node, g.nodes.get? ⟨i⟩ = some node ∧ node.Follows g plan
  fresh : ∀ p port, g.ports.get? p = some port → port.counted = false
  link : ∀ p port l peer, g.ports.get? p = some port →
    port.direction = .output → port.link = some l →
    g.ports.get? l.peer = some peer → r port.owner.index peer.owner.index
  slot : ∀ p port l, g.ports.get? p = some port → port.direction = .input →
    port.link = some l → g.slots.get? l.slot =
      some (if asked port.owner then Slot.request {} else {})
  queue : g.ready.Lists []
  driver : g.driver = none

lemma follows_empty (r : Nat → Nat → Prop) (asked : NodeId → Bool) :
    (empty : Graph σ).Follows [] r asked where
  wf := wellFormed_empty
  size := rfl
  node := by simp
  fresh := by simp [empty]
  link := by simp [empty]
  slot := by simp [empty]
  queue := ReadyQueue.lists_empty
  driver := rfl

namespace WellFormed

variable {g : Graph σ} {n : NodeId} {node : Node σ} {p x : PortId} {port : Port}
  {l : Link}

/-- The only input of a node is the only one that the node owns. -/
lemma owner_eq_iff (h : g.WellFormed) (hn : g.nodes.get? n = some node)
    (hp : node.inputs = #[p]) (hx : g.ports.get? x = some port)
    (hd : port.direction = .input) : port.owner = n ↔ x = p := by
  have hmem := h.layout.mem_portsOf (p := x) (n := n) (d := .input)
  rw [h.shows.portsOf hn, h.shows.port_eq, hx] at hmem
  simpa [Node.portsOf, hp, Port.layout, hd, eq_comm] using hmem.symm

/-- The slot behind the only input of a node is that of no other input. -/
lemma slots_modifySlotOf (h : g.WellFormed) {f : Slot → Slot}
    (hn : g.nodes.get? n = some node) (hp : node.inputs = #[p])
    (hx : g.ports.get? x = some port) (hd : port.direction = .input)
    (hl : port.link = some l) :
    (g.modifySlotOf p f).slots.get? l.slot =
      if x = p then (g.slots.get? l.slot).map f else g.slots.get? l.slot := by
  split
  · subst x
    rw [Graph.modifySlotOf, slotId?, hx, Option.bind_some, Port.slot?, hl]
    simp only [Option.map_some, Arena.get?_modify_self]
  · rename_i hxp
    rw [Graph.modifySlotOf]
    rcases hid : g.slotId? p with _ | s
    · rfl
    · simp only [slotId?, Option.bind_eq_some_iff, Port.slot?,
        Option.map_eq_some_iff] at hid
      obtain ⟨port', hp', l', hl', rfl⟩ := hid
      refine Arena.get?_modify_ne _ _ fun he => ?_
      rcases h.layout.slot_pair (h.shows.port hp') hl' (h.shows.port hx) hl he
        with rfl | rfl
      · exact hxp rfl
      · -- the other end of the link is an output
        obtain ⟨peer, hpeer, -, hne, -⟩ := h.layout.link (h.shows.port hp') hl'
        rw [h.shows.port hx] at hpeer
        cases hpeer
        refine hne (hd.trans ?_)
        have hmem := h.layout.mem_portsOf (p := p) (n := n) (d := .input)
        rw [h.shows.portsOf hn, h.shows.port_eq, hp'] at hmem
        have := hmem.mp (by simp [Node.portsOf, hp])
        grind [Port.layout]

end WellFormed

namespace Follows

variable {g g' : Graph σ} {plans : List (Plan σ)} {plan : Plan σ}
  {r : Nat → Nat → Prop} {asked : NodeId → Bool} {n : NodeId} {p q : PortId}

/-- A node is added. -/
lemma addNode (h : g.Follows plans r asked) {x : σ}
    (hok : (Graph.addNode x).run g = (.ok n, g')) :
    n = ⟨plans.length⟩ ∧ g'.Follows (plans ++ [⟨x, [], 0, {}, 0⟩]) r asked := by
  obtain ⟨rfl, rfl, hwf, -⟩ := h.wf.addNode hok
  have hfresh : g.nodes.fresh = ⟨plans.length⟩ := by simp [Arena.fresh, h.size]
  refine ⟨hfresh, hwf, by simp [h.size], ?_, h.fresh, h.link, h.slot,
    h.queue.register, h.driver⟩
  intro i plan hi
  rcases getElem?_concat_eq_some.mp hi with hi | ⟨rfl, rfl⟩
  · obtain ⟨node, hnode, hf⟩ := h.node i plan hi
    exact ⟨node, Arena.get?_insert_of_some hnode,
      hf.mono fun p port hp => ⟨port, hp, rfl⟩⟩
  · rw [← hfresh]
    exact ⟨{ processor := x }, by simp [Arena.get?_insert], rfl, rfl, by simp,
      rfl, rfl, rfl, rfl, rfl⟩

/-- The node that was added last changes, with the same ports. -/
lemma modifyLast (h : g.Follows (plans ++ [plan]) r asked) {plan' : Plan σ}
    (f : Node σ → Node σ) (hports : ∀ node d, (f node).portsOf d = node.portsOf d)
    (hf : ∀ node, node.Follows g plan → (f node).Follows g plan') :
    (g.modifyNode ⟨plans.length⟩ f).Follows (plans ++ [plan']) r asked := by
  obtain ⟨node, hnode, hfol⟩ := h.node plans.length plan (by simp)
  refine ⟨(h.wf.modifyNode hnode f (hports node)).1, ?_, ?_, h.fresh, h.link,
    h.slot, h.queue, h.driver⟩
  · simpa [Graph.modifyNode] using h.size
  · intro i pl hi
    simp only [Graph.modifyNode, Arena.get?_modify, Handle.mk.injEq]
    rcases getElem?_concat_eq_some.mp hi with hi | ⟨rfl, rfl⟩
    · obtain ⟨node, hnode, hfol⟩ := h.node i pl
        (getElem?_concat_eq_some.mpr (Or.inl hi))
      have hlt := (List.getElem?_eq_some_iff.mp hi).1
      rw [if_neg (by omega)]
      exact ⟨node, hnode, hfol.mono fun p port hp => ⟨port, hp, rfl⟩⟩
    · rw [if_pos rfl, hnode]
      exact ⟨_, rfl, (hf node hfol).mono fun p port hp => ⟨port, hp, rfl⟩⟩

/-- A port is added to the node that was added last. -/
lemma addPort (h : g.Follows (plans ++ [plan]) r asked) {d : Direction}
    {flags : PortFlags} {plan' : Plan σ}
    (hok : (Graph.addPort ⟨plans.length⟩ d flags).run g = (.ok p, g'))
    (hf : ∀ node : Node σ, node.Follows g' plan → g'.ports.get? p =
        some { direction := d, owner := ⟨plans.length⟩, flags } →
      ({ node with
        inputs := if d = .input then node.inputs.push p else node.inputs
        outputs := if d = .output then node.outputs.push p else node.outputs
        requiredIn := if d = .input ∧ flags.optional = false then
          node.requiredIn + 1 else node.requiredIn } : Node σ).Follows g' plan') :
    g'.Follows (plans ++ [plan']) r asked := by
  obtain ⟨node, hnode, rfl, hg, hwf⟩ := h.wf.addPort hok
  have hnew : ∀ p port, g.ports.get? p = some port →
      g'.ports.get? p = some port := by
    intro p port hp
    rw [hg]
    exact Arena.get?_insert_of_some hp
  refine ⟨hwf, ?_, ?_, ?_, ?_, ?_, ?_, ?_⟩
  · rw [hg]
    simpa [Graph.modifyNode] using h.size
  · intro i pl hi
    rcases getElem?_concat_eq_some.mp hi with hi | ⟨rfl, rfl⟩
    · obtain ⟨node, hnode, hfol⟩ := h.node i pl
        (getElem?_concat_eq_some.mpr (Or.inl hi))
      have hlt := (List.getElem?_eq_some_iff.mp hi).1
      refine ⟨node, ?_, hfol.mono fun p port hp => ⟨port, hnew p port hp, rfl⟩⟩
      rw [hg]
      simp only [Graph.modifyNode, Arena.get?_modify, Handle.mk.injEq]
      rw [if_neg (by omega)]
      exact hnode
    · obtain ⟨node', hnode', hfol⟩ := h.node plans.length plan (by simp)
      obtain rfl : node = node' := by simpa [hnode] using hnode'
      have hfol' := hf node (hfol.mono fun p port hp => ⟨port, hnew p port hp, rfl⟩)
        (by rw [hg]; simp [Graph.modifyNode, Arena.get?_insert])
      refine ⟨_, ?_, hfol'⟩
      rw [hg]
      simp [Graph.modifyNode, hnode, Port.isRequired]
  · intro q port hq
    rw [hg] at hq
    simp only [Graph.modifyNode, Arena.get?_insert] at hq
    split at hq
    · cases hq
      rfl
    · exact h.fresh q port hq
  · intro q port l peer hq hd hl hpeer
    rw [hg] at hq hpeer
    simp only [Graph.modifyNode, Arena.get?_insert] at hq hpeer
    split at hq
    · cases hq
      cases hl
    · obtain ⟨peer', hpeer', -⟩ := h.wf.layout.link (h.wf.shows.port hq) hl
      obtain ⟨peer', hp', -⟩ := h.wf.shows.exists_port hpeer'
      rw [if_neg] at hpeer
      · exact h.link q port l peer hq hd hl hpeer
      · intro he
        simp [he, get?_fresh] at hp'
  · intro q port l hq hd hl
    rw [hg] at hq ⊢
    simp only [Graph.modifyNode, Arena.get?_insert] at hq
    split at hq
    · cases hq
      cases hl
    · exact h.slot q port l hq hd hl
  · rw [hg]
    exact h.queue
  · rw [hg]
    exact h.driver

/-- An input is added to the node that was added last. -/
lemma addInput (h : g.Follows (plans ++ [plan]) r asked) {optional : Bool}
    (hok : (Graph.addPort ⟨plans.length⟩ .input ⟨optional⟩).run g = (.ok p, g')) :
    g'.Follows (plans ++ [{ plan with
      inputs := plan.inputs ++ [optional]
      requiredIn := if optional = false then plan.requiredIn + 1
        else plan.requiredIn }]) r asked := by
  refine h.addPort hok fun node hn hp => ?_
  refine ⟨hn.processor, by simp [hn.inputs], ?_, hn.outputs, hn.flags, ?_,
    hn.phase, hn.readyIn⟩
  · intro k q hk
    simp only [if_true, Array.getElem?_push, hn.inputs] at hk
    split at hk
    · cases hk
      subst_vars
      exact ⟨_, hp, by simp⟩
    · obtain ⟨port, hport, ho⟩ := hn.optional k q hk
      exact ⟨port, hport, getElem?_concat_eq_some.mpr (Or.inl ho)⟩
  · simp [hn.requiredIn]

/-- An output is added to the node that was added last. -/
lemma addOutput (h : g.Follows (plans ++ [plan]) r asked)
    (hok : (Graph.addPort ⟨plans.length⟩ .output {}).run g = (.ok p, g')) :
    g'.Follows (plans ++ [{ plan with outputs := plan.outputs + 1 }]) r asked := by
  refine h.addPort hok fun node hn hp => ?_
  exact ⟨hn.processor, hn.inputs, hn.optional, by simp [hn.outputs], hn.flags,
    hn.requiredIn, hn.phase, hn.readyIn⟩

/-- The flags of the node that was added last are replaced. -/
lemma setFlags (h : g.Follows (plans ++ [plan]) r asked) {flags : NodeFlags} {u : Unit}
    (hok : (Graph.setFlags ⟨plans.length⟩ flags).run g = (.ok u, g')) :
    g'.Follows (plans ++ [{ plan with flags }]) r asked := by
  obtain ⟨node, hnode, -⟩ := h.node plans.length plan (by simp)
  simp only [Graph.setFlags, ExceptT.run, hnode] at hok
  cases hok
  refine h.modifyLast ({ · with flags }) (fun _ d => by cases d <;> rfl)
    fun node hn => ?_
  exact ⟨hn.processor, hn.inputs, hn.optional, hn.outputs, rfl, hn.requiredIn,
    hn.phase, hn.readyIn⟩

/-- The number of required inputs of the node that was added last is
overridden. -/
lemma setRequiredIn (h : g.Follows (plans ++ [plan]) r asked) {k : Nat} {u : Unit}
    (hok : (Graph.setRequiredIn ⟨plans.length⟩ k).run g = (.ok u, g')) :
    g'.Follows (plans ++ [{ plan with requiredIn := k }]) r asked := by
  obtain ⟨node, hnode, -⟩ := h.node plans.length plan (by simp)
  simp only [Graph.setRequiredIn, ExceptT.run, hnode] at hok
  cases hok
  refine h.modifyLast (fun node => { node with
    requiredIn := k
    readyIn := min node.readyIn k }) (fun _ d => by cases d <;> rfl)
    fun node hn => ?_
  exact ⟨hn.processor, hn.inputs, hn.optional, hn.outputs, hn.flags, rfl,
    hn.phase, by simp [hn.readyIn]⟩

/-- Two ports are linked. -/
lemma addLink (h : g.Follows plans r fun _ => false) {s : SlotId}
    (hok : (Graph.link p q).run g = (.ok s, g'))
    (hr : ∀ out inp, g.ports.get? p = some out → g.ports.get? q = some inp →
      r out.owner.index inp.owner.index) :
    g'.Follows plans r fun _ => false := by
  obtain ⟨out, inp, hmade, hwf⟩ := h.wf.makesLink hok
  refine ⟨hwf, by rw [hmade.nodes]; exact h.size, ?_, ?_, ?_, ?_,
    by rw [hmade.ready]; exact h.queue, by rw [hmade.driver]; exact h.driver⟩
  · intro i plan hi
    obtain ⟨node, hn, hfol⟩ := h.node i plan hi
    refine ⟨node, by rw [hmade.nodes]; exact hn, hfol.mono fun x port hx => ?_⟩
    obtain ⟨port', hx', -, -, hflags⟩ := hmade.exists_port hx
    exact ⟨port', hx', hflags⟩
  · intro x port hx
    rcases hmade.port_cases hx with ⟨rfl, rfl⟩ | ⟨rfl, rfl⟩ | ⟨-, -, hx⟩
    · exact h.fresh x out hmade.output
    · exact h.fresh x inp hmade.input
    · exact h.fresh x port hx
  · intro x port l peer hx hd hl hpeer
    rcases hmade.port_cases hx with ⟨rfl, rfl⟩ | ⟨rfl, rfl⟩ | ⟨-, -, hx⟩
    · cases hl
      rw [hmade.ports, if_pos rfl] at hpeer
      cases hpeer
      exact hr out inp hmade.output hmade.input
    · exact absurd (hmade.isInput.symm.trans hd) (by decide)
    · obtain ⟨hnep, hneq⟩ := hmade.peer_ne h.wf hx hl
      rw [hmade.ports, if_neg hneq, if_neg hnep] at hpeer
      exact h.link x port l peer hx hd hl hpeer
  · intro x port l hx hd hl
    rw [hmade.slots]
    rcases hmade.port_cases hx with ⟨rfl, rfl⟩ | ⟨rfl, rfl⟩ | ⟨-, -, hx⟩
    · exact absurd (hmade.isOutput.symm.trans hd) (by decide)
    · cases hl
      simp [Arena.get?_insert]
    · exact Arena.get?_insert_of_some (h.slot x port l hx hd hl)

/-- A node with a single input asks for data. -/
lemma prime (h : g.Follows plans r asked) {node : Node σ}
    (hn : g.nodes.get? n = some node) (hp : node.inputs = #[p]) :
    (g.modifySlotOf p Slot.request).Follows plans r
      fun m => asked m || m = n := by
  have hfields : (g.modifySlotOf p Slot.request).nodes = g.nodes ∧
      (g.modifySlotOf p Slot.request).ports = g.ports ∧
      (g.modifySlotOf p Slot.request).ready = g.ready ∧
      (g.modifySlotOf p Slot.request).driver = g.driver := by
    rw [Graph.modifySlotOf]
    split <;> exact ⟨rfl, rfl, rfl, rfl⟩
  obtain ⟨hnodes, hports, hready, hdriver⟩ := hfields
  refine ⟨(h.wf.modifySlotOf p _).1, by rw [hnodes]; exact h.size, ?_, ?_, ?_, ?_,
    by rw [hready]; exact h.queue, by rw [hdriver]; exact h.driver⟩
  · intro i plan hi
    obtain ⟨node, hnode, hfol⟩ := h.node i plan hi
    exact ⟨node, by rw [hnodes]; exact hnode, hfol.mono fun x port hx =>
      ⟨port, by rw [hports]; exact hx, rfl⟩⟩
  · rw [hports]
    exact h.fresh
  · rw [hports]
    exact h.link
  · intro x port l hx hd hl
    rw [hports] at hx
    have honly := h.wf.owner_eq_iff hn hp hx hd
    rw [h.wf.slots_modifySlotOf hn hp hx hd hl, h.slot x port l hx hd hl]
    by_cases hxp : x = p
    · rw [if_pos hxp, honly.mpr hxp, Option.map_some]
      split <;> simp [Slot.request]
    · have hown : ¬ port.owner = n := fun he => hxp (honly.mp he)
      simp [hxp, hown]

end Follows

end Graph

end MediaGraph

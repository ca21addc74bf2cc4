/-
Graphs with other processors.

* `Graph.map`: the processor of every node is replaced, and nothing else changes;
* `Graph.Mimics`: in this state of the graph, what replaces a processor replies to every
  call as the processor does;
* `Mimics.map_callback`, `Mimics.map_turn?`, `map_settle`: then a turn of the one graph
  is a turn of the other, and so is a run;
* `Graph.map_activate`: if this is so whenever a turn is taken then an activation of the
  one graph is an activation of the other.
-/
import MediaGraph.Proofs.Readiness

namespace MediaGraph

variable {σ ρ : Type}

/-! ### Replacing processors -/

/-- The entries of an arena, each replaced. -/
def Arena.map {kind : Kind} {α β : Type} (f : α → β) (a : Arena kind α) : Arena kind β :=
  ⟨a.cells.map (Option.map f)⟩

/-- A node with another processor. -/
def Node.map (f : σ → ρ) (node : Node σ) : Node ρ :=
  { node with processor := f node.processor }

/-- A graph in which every processor is replaced. -/
def Graph.map (f : σ → ρ) (g : Graph σ) : Graph ρ :=
  { g with nodes := g.nodes.map (Node.map f) }

/-- A reply with another processor. -/
def Reply.map (f : σ → ρ) (r : Reply σ) : Reply ρ := ⟨r.result, r.ports, f r.state⟩

/-- What a turn leaves behind, with other processors. -/
def Turn.map (f : σ → ρ) (t : Turn σ) : Turn ρ := ⟨t.graph.map f, t.callback, t.failure⟩

/-- What an activation leaves behind, with other processors. -/
def Activation.map (f : σ → ρ) (a : Activation σ) : Activation ρ :=
  ⟨a.graph.map f, a.result, a.callbacks⟩

namespace Arena

variable {kind : Kind} {α β : Type} (f : α → β) (a : Arena kind α) (h : Handle kind)

@[simp] lemma size_map : (a.map f).size = a.size := by simp [map, size]

@[simp] lemma fresh_map : (a.map f).fresh = a.fresh := by simp [fresh]

@[simp] lemma get?_map : (a.map f).get? h = (a.get? h).map f := by
  rw [get?, get?, map, Array.getElem?_map]
  rcases a.cells[h.index]? with _ | _ | x <;> rfl

lemma map_map {γ : Type} (f' : β → γ) : (a.map f).map f' = a.map (f' ∘ f) :=
  ext_get? (by simp) fun i => by simp

lemma map_insert (x : α) : (a.insert x).map f = (a.map f).insert (f x) := by
  simp [map, insert]

lemma map_modify {k : α → α} {k' : β → β} (hk : ∀ x, f (k x) = k' (f x)) :
    (a.modify h k).map f = (a.map f).modify h k' := by
  refine ext_get? (by simp) fun i => ?_
  rw [get?_map, get?_modify, get?_modify, get?_map]
  split
  · cases a.get? i <;> simp [hk]
  · rfl

end Arena

namespace Graph

variable (f : σ → ρ) (g : Graph σ) (n : NodeId) (p : PortId)

lemma map_map {τ : Type} (f' : ρ → τ) : (g.map f).map f' = g.map (f' ∘ f) := by
  rw [map, map, map, Arena.map_map]
  rfl

lemma map_map_activation {τ : Type} (f' : ρ → τ) (a : Activation σ) :
    (a.map f).map f' = a.map (f' ∘ f) := by
  rw [Activation.map, Activation.map, Activation.map, map_map]

/-! ### What a graph shows -/

lemma get?_nodes_map : (g.map f).nodes.get? n = (g.nodes.get? n).map (Node.map f) :=
  Arena.get?_map _ _ _

lemma view_map (node : Node σ) : (g.map f).view (node.map f) = g.view node := rfl

lemma demandsNothing_map (node : Node σ) :
    (g.map f).demandsNothing (node.map f) = g.demandsNothing node := rfl

/-! ### What does not call a processor -/

lemma map_modifyNode {k : Node σ → Node σ} {k' : Node ρ → Node ρ}
    (hk : ∀ node, (k node).map f = k' (node.map f)) :
    (g.modifyNode n k).map f = (g.map f).modifyNode n k' := by
  rw [map, modifyNode, Arena.map_modify _ _ _ hk]
  rfl

lemma map_setPhase (φ : Phase) :
    (g.modifyNode n ({ · with phase := φ })).map f =
      (g.map f).modifyNode n ({ · with phase := φ }) :=
  map_modifyNode f g n fun _ => rfl

lemma map_modifySlotOf (k : Slot → Slot) :
    (g.modifySlotOf p k).map f = (g.map f).modifySlotOf p k := by
  rw [modifySlotOf, modifySlotOf, show (g.map f).slotId? p = g.slotId? p from rfl]
  cases g.slotId? p <;> rfl

variable {f} in
/-- What is done to one port or slot after the other. -/
lemma map_foldl {α : Type} {k : Graph σ → α → Graph σ} {k' : Graph ρ → α → Graph ρ}
    (hk : ∀ g x, (k g x).map f = k' (g.map f) x) (xs : Array α) :
    (xs.foldl k g).map f = xs.foldl k' (g.map f) :=
  (Array.foldl_hom (map f) fun g x => (hk g x).symm).symm

lemma map_writeSlots (ports : List PortId) (slots : List (Option Slot)) :
    (g.writeSlots ports slots).map f = (g.map f).writeSlots ports slots := by
  refine (List.foldl_hom (map f) fun g x => ?_).symm
  rcases x with ⟨p, _ | c⟩
  · rfl
  · exact (map_modifySlotOf f g p _).symm

lemma map_writeView (node : Node σ) (v : PortView) :
    (g.writeView node v).map f = (g.map f).writeView (node.map f) v := by
  rw [writeView, map_writeSlots, map_writeSlots]
  rfl

lemma map_resetReady : (g.resetReady n).map f = (g.map f).resetReady n := by
  rw [resetReady, resetReady, get?_nodes_map]
  cases g.nodes.get? n with
  | none => rfl
  | some node =>
      rw [Option.map_some]
      change ((node.inputs.foldl _ _ : Graph σ).map f) = _
      have hnode : (g.modifyNode n ({ · with readyIn := 0 })).map f =
          (g.map f).modifyNode n ({ · with readyIn := 0 }) :=
        map_modifyNode f g n fun _ => rfl
      have hports (ports : Array PortId) (g : Graph σ) :
          (ports.foldl (·.modifyPort · ({ · with counted := false })) g).map f =
            ports.foldl (·.modifyPort · ({ · with counted := false })) (g.map f) :=
        map_foldl g (fun _ _ => rfl) ports
      rw [hports, hnode]
      rfl

lemma map_count : (g.count n p).map f = (g.map f).count n p :=
  map_modifyNode f _ n fun _ => rfl

lemma map_uncountDrained :
    (uncountDrained n g p).map f = uncountDrained n (g.map f) p := by
  simp only [uncountDrained, show (g.map f).ports = g.ports from rfl,
    show (g.map f).slotOf? p = g.slotOf? p from rfl]
  cases g.ports.get? p with
  | none => rfl
  | some port =>
      dsimp only
      split
      · exact map_modifyNode f _ n fun _ => rfl
      · rfl

lemma map_dropConsumed : (g.dropConsumed n).map f = (g.map f).dropConsumed n := by
  rw [dropConsumed, dropConsumed, get?_nodes_map]
  cases g.nodes.get? n with
  | none => rfl
  | some node => exact map_foldl g (fun g p => map_uncountDrained f g n p) node.inputs

lemma map_ask : (g.ask p).map f = (g.map f).ask p := by
  simp only [ask, show (g.map f).ports = g.ports from rfl,
    show (g.map f).driver = g.driver from rfl]
  cases g.ports.get? p with
  | none => rfl
  | some port =>
      dsimp only
      rw [get?_nodes_map]
      cases g.nodes.get? port.owner with
      | none => rfl
      | some producer =>
          simp only [Option.map_some, show (producer.map f).flags = producer.flags from rfl]
          split
          · exact congrArg (enqueue · port.owner) (map_setPhase f g port.owner .output)
          · rfl

lemma map_checkInputPort :
    (checkInputPort n g p).map f = checkInputPort n (g.map f) p := by
  simp only [checkInputPort, show (g.map f).ports = g.ports from rfl,
    show (g.map f).slots = g.slots from rfl]
  cases g.ports.get? p with
  | none => rfl
  | some port =>
      dsimp only
      split
      · rfl
      · split
        · exact map_ask f g _
        · split
          · exact map_count f g n p
          · rfl
        · rfl
        · rfl

lemma map_checkInput : (g.checkInput n).map f = (g.map f).checkInput n := by
  rw [checkInput, checkInput, get?_nodes_map]
  cases g.nodes.get? n with
  | none => rfl
  | some node =>
      refine (map_foldl _ (fun g p => map_checkInputPort f g n p) node.inputs).trans ?_
      rw [map_resetReady]
      rfl

lemma map_announce : (g.announce p).map f = (g.map f).announce p := by
  simp only [announce, show (g.map f).ports = g.ports from rfl,
    show (g.map f).slots = g.slots from rfl]
  cases g.ports.get? p with
  | none => rfl
  | some port =>
      simp only [← map_count, ← apply_ite (map f), get?_nodes_map]
      generalize hcounted : (if port.isRequired && !port.counted &&
        (port.link.bind fun l => g.slots.get? l.slot).any (·.hasData) then
          g.count port.owner p else g) = counted
      cases counted.nodes.get? port.owner with
      | none => rfl
      | some node =>
          simp only [Option.map_some, show (node.map f).requiredIn = node.requiredIn from rfl,
            show (node.map f).readyIn = node.readyIn from rfl]
          split
          · exact congrArg (enqueue · port.owner) (map_setPhase f counted port.owner .input)
          · rfl

lemma map_checkOutputPort : (g.checkOutputPort p).map f = (g.map f).checkOutputPort p := by
  rw [checkOutputPort, checkOutputPort, show (g.map f).peer? p = g.peer? p from rfl]
  cases g.peer? p with
  | none => rfl
  | some peer => exact map_announce f g peer

lemma map_checkOutput : (g.checkOutput n).map f = (g.map f).checkOutput n := by
  rw [checkOutput, checkOutput, get?_nodes_map]
  cases g.nodes.get? n with
  | none => rfl
  | some node => exact map_foldl g (fun g p => map_checkOutputPort f g p) node.outputs

lemma map_start (mode : Mode) : (g.start mode n).map f = (g.map f).start mode n := by
  rw [start, start, ← map_setPhase]
  rfl

/-! ### Calls -/

/-- What a node sees does not depend on which inputs are counted. -/
lemma view_modifyPort {k : Port → Port}
    (hk : ∀ port, (k port).flags = port.flags ∧ (k port).link = port.link)
    (node : Node σ) : (g.modifyPort p k).view node = g.view node := by
  have hslot : (g.modifyPort p k).slotOf? = g.slotOf? := by
    funext q
    simp only [slotOf?, slotId?, modifyPort, Arena.get?_modify]
    split
    · cases g.ports.get? q <;> simp [Port.slot?, (hk _).2]
    · rfl
  have hinput : (g.modifyPort p k).inputView = g.inputView := by
    funext q
    refine InputView.ext ?_ (congrFun hslot q)
    simp only [inputView, modifyPort, Arena.get?_modify]
    split
    · cases g.ports.get? q <;> simp [(hk _).1]
    · rfl
  rw [view, view, hslot, hinput]

lemma view_resetReady (node : Node σ) : (g.resetReady n).view node = g.view node := by
  have hfold : ∀ (ports : List PortId) (g : Graph σ),
      (ports.foldl (fun g p => g.modifyPort p ({ · with counted := false })) g).view node =
        g.view node := by
    intro ports
    induction ports with
    | nil => exact fun _ => rfl
    | cons p ports ih =>
        exact fun g => (ih _).trans (view_modifyPort g p
          (k := ({ · with counted := false })) (fun _ => ⟨rfl, rfl⟩) node)
  rw [resetReady]
  cases g.nodes.get? n with
  | none => rfl
  | some owner =>
      dsimp only
      rw [← Array.foldl_toList]
      exact hfold _ _

/-- What a call leaves behind is written back. -/
lemma map_called (side : Side) (x : σ) (node : Node σ) (v : PortView) :
    (((g.modifyNode n (afterCall side x)).writeView node v).countCall side).map f =
      (((g.map f).modifyNode n (afterCall side (f x))).writeView (node.map f) v).countCall
        side := by
  rw [← map_modifyNode f g n (k := afterCall side x) fun _ => by cases side <;> rfl,
    ← map_writeView]
  rfl

variable [Processor σ] [Processor ρ]

/-- What replaces the processor of a node replies to each call as that processor does. -/
structure Mimics (f : σ → ρ) (g : Graph σ) : Prop where
  call : ∀ {n node}, g.nodes.get? n = some node → ∀ side,
    Processor.call side (f node.processor) (g.view node) =
      (Processor.call side node.processor (g.view node)).map f

variable {f g n} {node : Node σ}

lemma Mimics.map_callback (h : g.Mimics f) (hn : g.nodes.get? n = some node) (side : Side) :
    (g.map f).callback n (node.map f) side =
      ((g.callback n node side).1, (g.callback n node side).2.map f) := by
  have hcall : ∀ side, Processor.call side (node.map f).processor (g.view node) =
      (Processor.call side node.processor (g.view node)).map f := h.call hn
  cases side with
  | input =>
      simp only [callback, ← map_resetReady, view_map, view_resetReady, hcall]
      generalize Processor.call .input node.processor (g.view node) = r
      rcases r with ⟨_ | verdict, ports, x⟩
      · simp only [Reply.map, map_called]
      · simp only [Reply.map, map_setPhase, map_called]
  | output =>
      simp only [callback, view_map, hcall]
      generalize Processor.call .output node.processor (g.view node) = r
      rcases r with ⟨_ | verdict, ports, x⟩
      · simp only [Reply.map, map_dropConsumed, map_called]
      · simp only [Reply.map, map_setPhase, map_dropConsumed, map_called]

/-! ### Turns and activations -/

lemma Mimics.map_serve (h : g.Mimics f) (hn : g.nodes.get? n = some node) :
    (g.map f).serve n (node.map f) = (g.serve n node).map f := by
  have hcall := h.map_callback hn
  simp only [serve, show (node.map f).phase = node.phase from rfl]
  cases node.phase with
  | input =>
      rw [hcall .input]
      rcases g.callback n node .input with ⟨_ | verdict, g'⟩
      · rfl
      · simp only [Turn.map, show (g'.map f).driver = g'.driver from rfl]
        split <;> rfl
  | output =>
      rw [hcall .output]
      rcases g.callback n node .output with ⟨_ | verdict, g'⟩ <;> rfl
  | checkInput =>
      have hmap := demandsNothing_map f g node
      cases hd : g.demandsNothing node with
      | true => simp only [hmap.trans hd, if_true, Turn.map, map_resetReady]
      | false =>
          simp [hmap.trans hd, Turn.map, map_checkOutput, map_checkInput]
  | checkOutput => simp only [Turn.map, map_checkOutput]

/-- A turn of the graph with other processors. -/
lemma Mimics.map_turn? (h : g.Mimics f) : (g.map f).turn? = g.turn?.map (Turn.map f) := by
  simp only [turn?, show (g.map f).ready = g.ready from rfl]
  rcases g.ready.popFront with ⟨_ | n, ready⟩
  · rfl
  · simp only [show ({ g.map f with ready } : Graph ρ) = map f { g with ready } from rfl,
      get?_nodes_map]
    cases hn : g.nodes.get? n with
    | none => rfl
    | some node =>
        refine congrArg some (Mimics.map_serve (g := { g with
          ready, stats := { g.stats with dispatches := g.stats.dispatches + 1 } })
            ⟨h.call⟩ hn)

/-- What was done with a graph of which every turn finds processors that are mimicked. -/
lemma map_settle {g₀ : Graph σ} (h : ∀ {t}, g₀.TakesTurns t → t.Mimics f)
    (hg : g₀.TakesTurns g) (budget : Nat) (calls : List Callback) :
    settle budget (g.map f) calls = (settle budget g calls).map f := by
  induction budget generalizing g calls with
  | zero =>
      have hturn := (h hg).map_turn?
      rcases hg' : g.turn? with _ | turn
      · rw [settle_of_none hg', settle_of_none (by rw [hturn, hg']; rfl)]
        rfl
      · rw [settle_zero hg', settle_zero (by rw [hturn, hg']; rfl)]
        rfl
  | succ budget ih =>
      have hturn := (h hg).map_turn?
      rcases hg' : g.turn? with _ | turn
      · rw [settle_of_none hg', settle_of_none (by rw [hturn, hg']; rfl)]
        rfl
      · have hmap : (g.map f).turn? = some (turn.map f) := by rw [hturn, hg']; rfl
        rw [settle_succ hg', settle_succ hmap,
          show (turn.map f).failure = turn.failure from rfl]
        cases hf : turn.failure with
        | some e => rfl
        | none => exact ih (hg.turn hg' hf) _

/-- An activation of the graph with other processors. -/
theorem map_activate {mode : Mode}
    (h : ∀ {node t}, g.nodes.get? n = some node → (g.start mode n).TakesTurns t → t.Mimics f)
    (budget : Nat) :
    (g.map f).activate budget mode n = (g.activate budget mode n).map f := by
  rw [activate, activate, get?_nodes_map]
  cases hn : g.nodes.get? n with
  | none => rfl
  | some node =>
      simp only [Option.map_some]
      rw [← map_start, map_settle (h hn) .refl]
      generalize settle budget (g.start mode n) [] = a
      rcases a with ⟨t, _ | _, calls⟩ <;> rfl

end Graph

end MediaGraph

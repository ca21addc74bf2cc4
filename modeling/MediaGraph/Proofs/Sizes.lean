/-
What creates entries of a graph, and what does not.

* `Graph.Shrinks`: from one graph to another no entry is created; entries may
  be removed, and their cells stay behind;
* `Shrinks.activate`: an activation creates nothing;
* `Shrinks.removeNode`, `Shrinks.removePort`, `Shrinks.unlink` and the lemmas on
  settings: of all edits, only `addNode`, `addPort` and `link` create entries.
-/
import MediaGraph.Proofs.Actions
import MediaGraph.Proofs.Queue

namespace MediaGraph

variable {σ : Type}

/-! ### Places in the queue -/

namespace ReadyQueue

@[simp] lemma size_setNext (q : ReadyQueue) (a x : Option NodeId) :
    (q.setNext a x).links.size = q.links.size := by
  cases a <;> simp [setNext]

@[simp] lemma size_setPrevious (q : ReadyQueue) (a x : Option NodeId) :
    (q.setPrevious a x).links.size = q.links.size := by
  cases a <;> simp [setPrevious]

@[simp] lemma size_pushBack (q : ReadyQueue) (n : NodeId) :
    (q.pushBack n).2.links.size = q.links.size := by
  unfold pushBack
  split
  · rfl
  · split <;> simp

@[simp] lemma size_remove (q : ReadyQueue) (n : NodeId) :
    (q.remove n).2.links.size = q.links.size := by
  unfold remove
  split
  · rfl
  · split <;> simp

@[simp] lemma size_popFront (q : ReadyQueue) :
    q.popFront.2.links.size = q.links.size := by
  unfold popFront
  split <;> simp

@[simp] lemma size_clear (q : ReadyQueue) :
    q.clear.links.size = q.links.size := by
  unfold clear
  generalize q.length = k
  induction k with
  | zero => rfl
  | succ k ih => rw [Nat.repeat, size_popFront, ih]

end ReadyQueue

/-! ### Nothing is created -/

namespace Graph

/-- The number of entries of a kind that were ever created. -/
def created (g : Graph σ) : Kind → Nat
  | .node => g.nodes.size
  | .port => g.ports.size
  | .slot => g.slots.size

/-- No entry is created on the way from `g` to `g'`. -/
structure Shrinks (g g' : Graph σ) : Prop where
  created : g'.created = g.created
  places : g'.ready.links.size = g.ready.links.size
  live : ∀ x, g'.isLive x = true → g.isLive x = true

namespace Shrinks

variable {g g' g'' : Graph σ} {n : NodeId} {p : PortId}

lemma refl (g : Graph σ) : g.Shrinks g := ⟨rfl, rfl, fun _ h => h⟩

lemma trans (h : g.Shrinks g') (h' : g'.Shrinks g'') : g.Shrinks g'' :=
  ⟨h'.created.trans h.created, h'.places.trans h.places,
    fun x hx => h.live x (h'.live x hx)⟩

/-- Changes of the arenas that remove entries at most. -/
lemma of_arenas (hn : g'.nodes.size = g.nodes.size)
    (hp : g'.ports.size = g.ports.size) (hs : g'.slots.size = g.slots.size)
    (hq : g'.ready.links.size = g.ready.links.size)
    (hnodes : ∀ n, (g'.nodes.get? n).isSome → (g.nodes.get? n).isSome)
    (hports : ∀ p, (g'.ports.get? p).isSome → (g.ports.get? p).isSome)
    (hslots : ∀ s, (g'.slots.get? s).isSome → (g.slots.get? s).isSome) :
    g.Shrinks g' where
  created := by
    funext k
    cases k <;> assumption
  places := hq
  live := by
    rintro ⟨k, x⟩
    cases k
    · exact hnodes x
    · exact hports x
    · exact hslots x

/-- An operation applied to the members of a list one after the other. -/
lemma foldl {α : Type*} {f : Graph σ → α → Graph σ}
    (hf : ∀ (g : Graph σ) (a : α), g.Shrinks (f g a)) (l : List α) (g : Graph σ) :
    g.Shrinks (l.foldl f g) := by
  induction l generalizing g with
  | nil => exact refl g
  | cons a l ih => exact (hf g a).trans (ih _)

/-! ### Elementary changes -/

lemma isSome_get?_modify {k : Kind} {α : Type} (a : Arena k α) (h h' : Handle k)
    (f : α → α) : ((a.modify h f).get? h').isSome = (a.get? h').isSome := by
  rw [Arena.get?_modify]
  split <;> simp

lemma isSome_of_get?_erase {k : Kind} {α : Type} (a : Arena k α) (h h' : Handle k)
    (hs : ((a.erase h).get? h').isSome) : (a.get? h').isSome := by
  rw [Arena.get?_erase] at hs
  split at hs
  · cases hs
  · exact hs

lemma modifyNode (g : Graph σ) (n : NodeId) (f : Node σ → Node σ) :
    g.Shrinks (g.modifyNode n f) :=
  of_arenas (by simp [Graph.modifyNode]) rfl rfl rfl
    (fun m => by simp [Graph.modifyNode, isSome_get?_modify])
    (fun _ h => h) fun _ h => h

lemma modifyPort (g : Graph σ) (p : PortId) (f : Port → Port) :
    g.Shrinks (g.modifyPort p f) :=
  of_arenas rfl (by simp [Graph.modifyPort]) rfl rfl (fun _ h => h)
    (fun m => by simp [Graph.modifyPort, isSome_get?_modify]) fun _ h => h

lemma modifySlotOf (g : Graph σ) (p : PortId) (f : Slot → Slot) :
    g.Shrinks (g.modifySlotOf p f) := by
  unfold Graph.modifySlotOf
  split
  · exact of_arenas rfl rfl (by simp) rfl (fun _ h => h) (fun _ h => h)
      fun s => by simp [isSome_get?_modify]
  · exact refl g

lemma eraseNode (g : Graph σ) (n : NodeId) :
    g.Shrinks { g with nodes := g.nodes.erase n } :=
  of_arenas (by simp) rfl rfl rfl (fun m => isSome_of_get?_erase _ n m)
    (fun _ h => h) fun _ h => h

lemma erasePort (g : Graph σ) (p : PortId) :
    g.Shrinks { g with ports := g.ports.erase p } :=
  of_arenas rfl (by simp) rfl rfl (fun _ h => h)
    (fun q => isSome_of_get?_erase _ p q) fun _ h => h

lemma eraseSlot (g : Graph σ) (s : SlotId) :
    g.Shrinks { g with slots := g.slots.erase s } :=
  of_arenas rfl rfl (by simp) rfl (fun _ h => h) (fun _ h => h)
    fun t => isSome_of_get?_erase _ s t

/-- The queue, the driver and the counters change. -/
lemma setReady (g : Graph σ) {q : ReadyQueue}
    (hq : q.links.size = g.ready.links.size) (D : Option NodeId)
    (stats : ActivationStats) :
    g.Shrinks { g with ready := q, driver := D, stats := stats } :=
  ⟨rfl, hq, fun _ h => h⟩

lemma enqueue (g : Graph σ) (n : NodeId) : g.Shrinks (g.enqueue n) :=
  setReady g (by simp) _ _

lemma dequeue (g : Graph σ) (n : NodeId) : g.Shrinks (g.dequeue n) :=
  setReady g (by simp) _ _

/-! ### Turns -/

lemma resetReady (g : Graph σ) (n : NodeId) : g.Shrinks (g.resetReady n) := by
  unfold Graph.resetReady
  split
  · exact refl g
  · rw [← Array.foldl_toList]
    exact (modifyNode g n _).trans (foldl (fun g p => modifyPort g p _) _ _)

lemma count (g : Graph σ) (n : NodeId) (p : PortId) : g.Shrinks (g.count n p) :=
  (modifyPort g p _).trans (modifyNode _ n _)

lemma uncountDrained (n : NodeId) (g : Graph σ) (p : PortId) :
    g.Shrinks (uncountDrained n g p) := by
  unfold Graph.uncountDrained
  split
  · exact refl g
  · split
    · exact (modifyPort g p _).trans (modifyNode _ n _)
    · exact refl g

lemma dropConsumed (g : Graph σ) (n : NodeId) : g.Shrinks (g.dropConsumed n) := by
  unfold Graph.dropConsumed
  split
  · exact refl g
  · rw [← Array.foldl_toList]
    exact foldl (uncountDrained n) _ _

lemma ask (g : Graph σ) (q : PortId) : g.Shrinks (g.ask q) := by
  unfold Graph.ask
  split
  · exact refl g
  · split
    · exact refl g
    · split
      · exact (modifyNode g _ _).trans (enqueue _ _)
      · exact refl g

lemma checkInputPort (n : NodeId) (g : Graph σ) (p : PortId) :
    g.Shrinks (checkInputPort n g p) := by
  unfold Graph.checkInputPort
  repeat' split
  all_goals first
    | exact refl g
    | exact ask g _
    | exact count g n p

lemma checkInput (g : Graph σ) (n : NodeId) : g.Shrinks (g.checkInput n) := by
  unfold Graph.checkInput
  split
  · exact refl g
  · rw [← Array.foldl_toList]
    exact (resetReady g n).trans (foldl (checkInputPort n) _ _)

lemma announce (g : Graph σ) (p : PortId) : g.Shrinks (g.announce p) := by
  unfold Graph.announce
  split
  · exact refl g
  · rename_i port _
    have hcount : ∀ b : Bool, g.Shrinks (if b then g.count port.owner p else g) := by
      rintro (_ | _)
      · exact refl g
      · exact count g port.owner p
    simp only
    split
    · exact hcount _
    · split
      · exact ((hcount _).trans (modifyNode _ _ _)).trans (enqueue _ _)
      · exact (hcount _).trans (dequeue _ _)

lemma checkOutput (g : Graph σ) (n : NodeId) : g.Shrinks (g.checkOutput n) := by
  unfold Graph.checkOutput
  split
  · exact refl g
  · rw [← Array.foldl_toList]
    refine foldl (fun g p => ?_) _ _
    unfold Graph.checkOutputPort
    split
    · exact announce g _
    · exact refl g

lemma writeSlots (g : Graph σ) (ports : List PortId) (slots : List (Option Slot)) :
    g.Shrinks (g.writeSlots ports slots) := by
  refine foldl (fun g x => ?_) _ _
  obtain ⟨p, _ | c⟩ := x
  · exact refl g
  · exact modifySlotOf g p _

variable [Processor σ]

lemma callback (g : Graph σ) (n : NodeId) (node : Node σ) (side : Side) :
    g.Shrinks (g.callback n node side).2 := by
  have hwrite : ∀ (g : Graph σ) (v : PortView), g.Shrinks (g.writeView node v) :=
    fun g v => (writeSlots g _ _).trans (writeSlots _ _ _)
  have hcall : ∀ (g : Graph σ) (side : Side), g.Shrinks (g.countCall side) :=
    fun g side => setReady g rfl _ _
  have hcalled : ∀ (side : Side) (g : Graph σ) (x : σ) (v : PortView), g.Shrinks
      (((g.modifyNode n (Graph.afterCall side x)).writeView node v).countCall side) :=
    fun side g x v => ((modifyNode g n _).trans (hwrite _ v)).trans (hcall _ side)
  cases side with
  | input =>
      have hleft := fun x v => (resetReady g n).trans (hcalled .input _ x v)
      simp only [Graph.callback]
      split
      · exact (hleft _ _).trans (modifyNode _ n _)
      · exact hleft _ _
  | output =>
      have hleft := fun x v => (hcalled .output g x v).trans (dropConsumed _ n)
      simp only [Graph.callback]
      split
      · exact (hleft _ _).trans (modifyNode _ n _)
      · exact hleft _ _

lemma serve (g : Graph σ) (n : NodeId) (node : Node σ) :
    g.Shrinks (g.serve n node).graph := by
  unfold Graph.serve
  split
  · have h := callback g n node .input
    split <;> rename_i hc <;> rw [hc] at h
    · simp only
      split
      · exact h
      · exact h.trans (enqueue _ _)
    · exact h
  · have h := callback g n node .output
    split <;> rename_i hc <;> rw [hc] at h
    · exact h.trans (enqueue _ _)
    · exact h
  · split
    · exact resetReady g n
    · exact (checkInput g n).trans (checkOutput _ n)
  · exact checkOutput g n

lemma turn? {turn : Turn σ} (h : g.turn? = some turn) : g.Shrinks turn.graph := by
  have hpop : ∀ stats, g.Shrinks { g with ready := g.ready.popFront.2, stats } :=
    fun stats => setReady g (by simp) _ stats
  unfold Graph.turn? at h
  split at h
  · cases h
  · rename_i hq
    rw [hq] at hpop
    simp only at h
    split at h
    · cases h
      exact hpop _
    · cases h
      exact (hpop _).trans (serve _ _ _)

lemma settle (budget : Nat) (g : Graph σ) (calls : List Callback) :
    g.Shrinks (Graph.settle budget g calls).graph := by
  fun_induction Graph.settle budget g calls with
  | case1 => exact refl _
  | case2 => exact refl _
  | case3 g calls turn hturn => exact turn? hturn
  | case4 g calls turn hturn _ _ _ ih => exact (turn? hturn).trans ih

/-- An activation creates nothing. -/
lemma activate (budget : Nat) (mode : Mode) (n : NodeId) (g : Graph σ) :
    g.Shrinks (g.activate budget mode n).graph := by
  unfold Graph.activate
  split
  · exact refl g
  · have hstart : g.Shrinks (g.start mode n) :=
      ((modifyNode g n _).trans (setReady _ rfl _ _)).trans (enqueue _ n)
    refine (hstart.trans (settle budget _ [])).trans (setReady _ ?_ _ _)
    split <;> simp

/-! ### Edits -/

omit [Processor σ]

lemma detach (g : Graph σ) (p : PortId) : g.Shrinks (g.detach p) := by
  unfold Graph.detach
  split
  · exact refl g
  · simp only
    split
    · exact (modifyPort g p _).trans (modifyNode _ _ _)
    · exact modifyPort g p _

lemma breakLink (g : Graph σ) (p : PortId) : g.Shrinks (g.breakLink p) := by
  unfold Graph.breakLink
  split
  · exact detach g p
  · exact ((detach g p).trans (detach _ _)).trans (eraseSlot _ _)

lemma dropPort (g : Graph σ) (p : PortId) : g.Shrinks (g.dropPort p) :=
  (breakLink g p).trans (erasePort _ p)

lemma removeNode (g : Graph σ) (n : NodeId) :
    g.Shrinks ((Graph.removeNode n).run g).2 := by
  simp only [Graph.removeNode, ExceptT.run]
  split
  · exact refl g
  · rename_i node _
    have hbare := (dequeue g n).trans
      (foldl dropPort (node.inputs ++ node.outputs).toList _)
    simp only [← Array.foldl_toList]
    exact (hbare.trans (eraseNode _ n)).trans
      (setReady _ (Arena.size_erase _ n) _ _)

lemma removePort (g : Graph σ) (p : PortId) :
    g.Shrinks ((Graph.removePort p).run g).2 := by
  simp only [Graph.removePort, ExceptT.run]
  split
  · exact refl g
  · split
    · exact dropPort g p
    · exact (dropPort g p).trans (modifyNode _ _ _)

lemma unlink (g : Graph σ) (p q : PortId) :
    g.Shrinks ((Graph.unlink p q).run g).2 := by
  simp only [Graph.unlink, ExceptT.run]
  repeat' split
  all_goals first
    | exact refl g
    | exact breakLink g p

lemma setRequiredIn (g : Graph σ) (n : NodeId) (required : Nat) :
    g.Shrinks ((Graph.setRequiredIn n required).run g).2 := by
  simp only [Graph.setRequiredIn, ExceptT.run]
  split
  · exact refl g
  · exact modifyNode g n _

lemma setFlags (g : Graph σ) (n : NodeId) (flags : NodeFlags) :
    g.Shrinks ((Graph.setFlags n flags).run g).2 := by
  simp only [Graph.setFlags, ExceptT.run]
  split
  · exact refl g
  · exact modifyNode g n _

lemma reuseBuffer [Processor σ] (g : Graph σ) (p : PortId) (b : BufferId) :
    g.Shrinks ((Graph.reuseBuffer p b).run g).2 := by
  simp only [Graph.reuseBuffer, ExceptT.run]
  repeat' split
  all_goals first
    | exact refl g
    | exact modifyNode g _ _

end Shrinks

end Graph

end MediaGraph

/-
What waits, and how activations fail.

* `Graph.Quiet`: nobody waits, no node is marked as waiting, and there is no
  driver;
* `Graph.Orderly`: a node waits at most once, the nodes that wait are those that
  are marked, and all of them are live;
* `Network.failure_serve_cases`, `Graph.exists_first_of_failure`: a turn fails only
  through the call that it makes, or in a check of a node that demands nothing;
* `Graph.Aborts`: why an activation does not end well, with its last turn;
* `Action.graph_quiet`: every graph that a client can make is quiet, before and
  after every activation, is orderly in between, and an activation that does not
  end well ends so for one of these reasons.
-/
import MediaGraph.Proofs.Course

namespace MediaGraph

variable {σ : Type}

/-! ### Queues -/

namespace Graph

/-- Nobody waits, no node is marked as waiting, and there is no driver. -/
structure Quiet (g : Graph σ) : Prop where
  members : g.ready.toList = []
  isEmpty : g.ready.isEmpty = true
  queuedCount : g.queuedCount = 0
  unmarked : ∀ n, g.ready.contains n = false
  driver : g.driver = none

/-- A node waits at most once, the nodes that wait are those that are marked,
and all of them are live. -/
structure Orderly (g : Graph σ) : Prop where
  nodup : g.ready.toList.Nodup
  mem_iff : ∀ n, n ∈ g.ready.toList ↔ g.ready.contains n = true
  queuedCount : g.queuedCount = g.ready.toList.length
  live : ∀ n ∈ g.ready.toList, g.nodes.contains n = true

variable {g : Graph σ} {Λ : Layout} {D : Option NodeId} {s : Flow σ}

/-- A graph whose queue is empty and that has no driver is quiet. -/
lemma quiet_of_lists (h : g.ready.Lists []) (hD : g.driver = none) : g.Quiet where
  members := h.toList_eq
  isEmpty := by
    rw [ReadyQueue.isEmpty, h.first]
    rfl
  queuedCount := h.length
  unmarked n := by simp [Bool.eq_false_iff, h.contains_iff]
  driver := hD

/-- The queue of a graph that shows a flow is in order. -/
lemma Shows.orderly (hΛ : Λ.Proper) (h : g.Shows Λ D s) : g.Orderly := by
  obtain ⟨L, hL⟩ := h.queue
  refine ⟨hL.toList_eq ▸ hL.nodup, fun n => ?_, ?_, fun n hn => ?_⟩
  · rw [hL.toList_eq, hL.contains_iff]
  · rw [hL.toList_eq]
    exact hL.length
  · rw [hL.toList_eq, ← hL.contains_iff] at hn
    obtain ⟨node, hnode⟩ :=
      h.exists_node_of_queued hΛ ((h.contains_eq n).symm.trans hn)
    simp [Arena.contains, hnode]

/-! ### Drivers -/

lemma driver_detach (g : Graph σ) (p : PortId) : (g.detach p).driver = g.driver := by
  unfold detach
  split
  · rfl
  · simp only
    split <;> rfl

lemma driver_breakLink (g : Graph σ) (p : PortId) :
    (g.breakLink p).driver = g.driver := by
  unfold breakLink
  split
  · exact driver_detach g p
  · rename_i l _
    exact (driver_detach (g.detach p) l.peer).trans (driver_detach g p)

lemma driver_foldl_dropPort (ports : List PortId) (g : Graph σ) :
    (ports.foldl dropPort g).driver = g.driver := by
  induction ports generalizing g with
  | nil => rfl
  | cons p ports ih => exact (ih _).trans (driver_breakLink g p)

variable [Processor σ]

/-- An activation that is over has no driver. -/
lemma driver_activate (h : g.driver = none) (budget : Nat) (mode : Mode) (n : NodeId) :
    (g.activate budget mode n).graph.driver = none := by
  unfold activate
  split
  · exact h
  · rfl

/-- There is no driver between two actions. -/
lemma driver_perform (h : g.driver = none) (a : Action σ) :
    (a.perform g).2.driver = none := by
  cases a with
  | addNode processor =>
      rw [Action.perform, Action.snd_issue]
      exact h
  | addPort n direction flags =>
      simp only [Action.perform, Action.snd_issue, Graph.addPort, ExceptT.run]
      repeat' split
      all_goals exact h
  | link p q =>
      simp only [Action.perform, Action.snd_issue, Graph.link, ExceptT.run]
      repeat' split
      all_goals exact h
  | removeNode n =>
      simp only [Action.perform, Graph.removeNode, ExceptT.run]
      split
      · exact h
      · simp only [← Array.foldl_toList]
        exact (driver_foldl_dropPort _ _).trans h
  | removePort p =>
      simp only [Action.perform, Graph.removePort, ExceptT.run]
      split
      · exact h
      · split <;> exact (driver_breakLink g p).trans h
  | unlink p q =>
      simp only [Action.perform, Graph.unlink, ExceptT.run]
      repeat' split
      all_goals first
        | exact h
        | exact (driver_breakLink g p).trans h
  | setRequiredIn n required =>
      simp only [Action.perform, Graph.setRequiredIn, ExceptT.run]
      split <;> exact h
  | setFlags n flags =>
      simp only [Action.perform, Graph.setFlags, ExceptT.run]
      split <;> exact h
  | reuseBuffer p b =>
      simp only [Action.perform, Graph.reuseBuffer, ExceptT.run]
      repeat' split
      all_goals exact h
  | writeSlot p c =>
      simp only [Action.perform, Graph.modifySlotOf]
      split <;> exact h
  | activate budget mode n => exact driver_activate h budget mode n

end Graph

/-! ### Failures -/

namespace Network

variable {N : Network} {D : Option NodeId} {n : NodeId} {s : Flow σ} [Processor σ]

/-- A call that fails names its node and its cause, and changes no phase. -/
lemma failure_call (hN : N.Proper) {x : σ} {side : Side} {e : ActivationError}
    (h : (report D n side (N.call n x side s)).failure = some e) :
    ∃ cause, e = .processFailed n cause ∧
      (report D n side (N.call n x side s)).callback = some ⟨n, side, .error cause⟩ ∧
      (report D n side (N.call n x side s)).flow.phase = s.phase := by
  have hphase := (queued_phase_call hN n x side s).2
  rcases hr : N.call n x side s with ⟨cause | verdict, t⟩
  · rw [hr] at h hphase
    exact ⟨cause, (Option.some.inj h).symm, rfl, hphase⟩
  · rw [hr] at h
    cases h

/-- A turn fails through the call that it makes, which leaves the node in its
phase, or in a check of a node that demands nothing. -/
theorem failure_serve_cases (hN : N.Proper) {e : ActivationError}
    (h : (N.serve D n s).failure = some e) :
    (∃ side cause, e = .processFailed n cause ∧
      (N.serve D n s).callback = some ⟨n, side, .error cause⟩ ∧
      s.phase n = side.phase ∧ (N.serve D n s).flow.phase n = side.phase) ∨
    (e = .nothingRequired n ∧ s.phase n = .checkInput ∧
      N.demandsNothing n = true) := by
  unfold serve at h ⊢
  split at h
  · cases h
  · rename_i x hx
    unfold serveNode at h ⊢
    split at h
    · rename_i hφ
      obtain ⟨cause, he, hc, hphase⟩ := failure_call hN h
      exact Or.inl ⟨.input, cause, he, hc, hφ, (congrFun hphase n).trans hφ⟩
    · rename_i hφ
      obtain ⟨cause, he, hc, hphase⟩ := failure_call hN h
      exact Or.inl ⟨.output, cause, he, hc, hφ, (congrFun hphase n).trans hφ⟩
    · rename_i hφ
      split at h
      · rename_i hd
        exact Or.inr ⟨(Option.some.inj h).symm, hφ, hd⟩
      · cases h
    · cases h

end Network

namespace Graph

variable {g t : Graph σ} {Λ : Layout} {D : Option NodeId} {s : Flow σ} {n : NodeId}
  {turn : Turn σ} {e : ActivationError}

variable [Processor σ]

/-- Why a turn fails: the call that it makes of the node at the head of the queue
fails and leaves the node in its phase, or that node is checked and demands
nothing. -/
lemma Shows.exists_first_of_failure (hΛ : Λ.Proper) (h : t.Shows Λ D s)
    (hturn : t.turn? = some turn) (hf : turn.failure = some e) :
    (∃ m side cause, e = .processFailed m cause ∧ t.IsTurnOf m side.phase ∧
      turn.callback = some ⟨m, side, .error cause⟩ ∧
      (turn.graph.nodes.get? m).map (·.phase) = some side.phase) ∨
    ∃ m node, e = .nothingRequired m ∧ t.IsTurnOf m .checkInput ∧
      t.nodes.get? m = some node ∧ t.demandsNothing node = true := by
  obtain ⟨m, hfirst, hqueued, hturned⟩ := h.exists_turn_first hΛ hturn
  have hof := h.isTurnOf hΛ hfirst hqueued
  obtain ⟨node, hm⟩ := h.exists_node_of_queued hΛ hqueued
  rw [hturned.failure] at hf
  rcases Network.failure_serve_cases hΛ.network hf with
    ⟨side, cause, he, hc, hφ, hflow⟩ | ⟨he, hφ, hd⟩
  · refine Or.inl ⟨m, side, cause, he, hφ ▸ hof, hturned.callback.trans hc, ?_⟩
    obtain ⟨node', hm', -⟩ := hturned.graph.exists_node (h.node hm)
    rw [hm', Option.map_some, ← hturned.graph.phase_eq hm', hflow]
  · exact Or.inr ⟨m, node, he, hφ ▸ hof, hm, (h.demandsNothing hΛ hm).trans hd⟩

/-- Why an activation does not end well. -/
inductive Aborts (g : Graph σ) (budget : Nat) (mode : Mode) (n : NodeId) :
    ActivationError → Prop
  /-- The node to start from does not exist. -/
  | missing : g.nodes.get? n = none → Aborts g budget mode n (.driverNotFound n)
  /-- The last turn made the last call. It failed, and its node is still in the
  phase in which its turn came. -/
  | called {pre : List (Graph σ × Turn σ)} {t : Graph σ} {turn : Turn σ}
      {m : NodeId} {side : Side} {cause : ProcessError} :
      g.turns budget mode n = pre ++ [(t, turn)] → t.IsTurnOf m side.phase →
      turn.callback = some ⟨m, side, .error cause⟩ →
      (g.activate budget mode n).callbacks.getLast? =
        some ⟨m, side, .error cause⟩ →
      ((g.activate budget mode n).graph.nodes.get? m).map (·.phase) =
        some side.phase →
      Aborts g budget mode n (.processFailed m cause)
  /-- The last turn checked a node that has required inputs and requires none. -/
  | stuck {pre : List (Graph σ × Turn σ)} {t : Graph σ} {turn : Turn σ}
      {m : NodeId} {node : Node σ} :
      g.turns budget mode n = pre ++ [(t, turn)] → t.IsTurnOf m .checkInput →
      t.nodes.get? m = some node → t.demandsNothing node = true →
      Aborts g budget mode n (.nothingRequired m)
  /-- All turns are used up. -/
  | exhausted : (g.turns budget mode n).length = budget →
      Aborts g budget mode n .tooManyTurns

/-- An activation of a tidy graph that does not end well ends so for one of these
reasons. -/
theorem Tallied.aborts (htallied : g.Tallied) (htidy : g.Tidy) {budget : Nat}
    {mode : Mode} (h : (g.activate budget mode n).result = .error e) :
    g.Aborts budget mode n e := by
  rcases hn : g.nodes.get? n with _ | node
  · simp only [Graph.activate, hn, Except.error.injEq] at h
    exact h ▸ .missing hn
  · obtain ⟨u, hstops, hnodes, -⟩ := activate_stops hn budget mode
    have hturns := turns_of_get? hn budget mode
    rw [h] at hstops
    cases hstops with
    | @failed t turn _ hlast hfail =>
        rw [← hturns] at hlast
        obtain ⟨pre, hpre⟩ := List.getLast?_eq_some_iff.mp hlast
        obtain ⟨ht, hturn⟩ := takesTurns_of_mem_turns (List.mem_of_getLast? hlast)
        obtain ⟨s, hs, hst⟩ := htallied.exists_start htidy mode n
        obtain ⟨v, hv, -⟩ := ht.shows htidy.layout hs hst
        rcases hv.exists_first_of_failure htidy.layout hturn hfail with
          ⟨m, side, cause, rfl, hof, hc, hφ⟩ | ⟨m, node, rfl, hof, hm, hd⟩
        · refine .called hpre hof hc ?_ (by rw [hnodes]; exact hφ)
          simp [callbacks_activate, hpre, hc]
        · exact .stuck hpre hof hm hd
    | exhausted _ _ hlen => exact .exhausted (by rw [hturns]; exact hlen)

end Graph

/-! ### Every graph of a client -/

/-- No graph that actions make of the empty one has a driver. -/
lemma Action.driver_graph [Processor σ] (actions : List (Action σ)) :
    (Action.graph actions).driver = none :=
  Action.graph_induction (P := fun g : Graph σ => g.driver = none) rfl
    (fun a _ h => Graph.driver_perform h a) actions

/-- Every graph that actions make of the empty one is quiet, and so is what an
activation of it leaves behind, whether it ends well or not. The activation of a
live node starts with that node as the driver and as the only one that waits.
Before and after each of its turns the queue is orderly. It ends with the error
of a missing driver exactly if its driver is not live, and with another error
only through its last call, which fails and leaves its node in the phase in which
its turn came, or through one of the two limits of the program: a node that
requires nothing of its required inputs, and the number of turns. -/
theorem Action.graph_quiet [Processor σ] (actions : List (Action σ)) (budget : Nat)
    (mode : Mode) (n : NodeId) :
    (Action.graph actions).Quiet ∧
    ((Action.graph actions).activate budget mode n).graph.Quiet ∧
    ((Action.graph actions).nodes.contains n = true →
      ((Action.graph actions).start mode n).ready.toList = [n] ∧
      ((Action.graph actions).start mode n).driver = some n ∧
      ∀ m, ((Action.graph actions).start mode n).ready.contains m = decide (m = n)) ∧
    (∀ x ∈ (Action.graph actions).turns budget mode n,
      x.1.Orderly ∧ x.2.graph.Orderly) ∧
    (∀ m, ((Action.graph actions).activate budget mode n).result =
        .error (.driverNotFound m) ↔
      (Action.graph actions).nodes.contains n = false ∧ m = n) ∧
    ∀ e, ((Action.graph actions).activate budget mode n).result = .error e →
      (Action.graph actions).Aborts budget mode n e := by
  have htidy := Action.tidy_graph actions
  have htallied := Action.tallied_graph actions
  have hD := Action.driver_graph actions
  generalize Action.graph actions = g at htidy htallied hD
  obtain ⟨s, hs, hst⟩ := htallied.exists_start htidy mode n
  refine ⟨Graph.quiet_of_lists htidy.idle hD,
    Graph.quiet_of_lists (htidy.activate budget mode n).idle
      (Graph.driver_activate hD budget mode n), fun hn => ?_,
    fun ⟨t, turn⟩ hx => ?_, fun m => ?_, fun e he => htallied.aborts htidy he⟩
  · obtain ⟨node, hn⟩ := Option.isSome_iff_exists.mp hn
    have hplace := htidy.shows.place htidy.layout n
    rw [hn] at hplace
    obtain ⟨link, hlink⟩ := Option.isSome_iff_exists.mp hplace
    have hlists : (g.start mode n).ready.Lists [n] :=
      (htidy.idle.pushBack List.not_mem_nil hlink).2
    refine ⟨hlists.toList_eq, rfl, fun m => ?_⟩
    rw [Bool.eq_iff_iff, hlists.contains_iff, List.mem_singleton, decide_eq_true_eq]
  · obtain ⟨ht, hturn⟩ := Graph.takesTurns_of_mem_turns hx
    obtain ⟨u, hu, -⟩ := ht.shows htidy.layout hs hst
    obtain ⟨m, -, hturned⟩ := hu.turn? htidy.layout hturn
    exact ⟨hu.orderly htidy.layout, hturned.graph.orderly htidy.layout⟩
  · constructor
    · intro he
      cases htallied.aborts htidy he with
      | missing hn => exact ⟨by rw [Arena.contains, hn]; rfl, rfl⟩
    · rintro ⟨hn, rfl⟩
      rw [Arena.contains, Option.isSome_eq_false_iff, Option.isNone_iff_eq_none] at hn
      simp only [Graph.activate, hn]

end MediaGraph

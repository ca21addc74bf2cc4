/-
Who is asked for output.

* `Graph.Asks`: a turn checks the inputs of a node, one of which is linked to `n`
  and drained, and `n` is not a driver that is not asynchronous;
* `Graph.Requested`: after some turns of an activation, a node was asked since it
  was last called for output, or it is the pushed driver and the first to be
  called;
* `Network.output_serve`: a turn leaves a node waiting to be asked for output only
  if it asks for that, or if the node waited for that before;
* `Shows.requested_of_course`: every call for output of a run was requested;
* `Action.demand_gate`: so it is in every activation of every graph that a client
  can make, and a driver that is not asynchronous is called for output once if it
  is pushed and not at all if it is pulled.
-/
import MediaGraph.Proofs.Counting
import MediaGraph.Proofs.Course
import MediaGraph.Proofs.Notices
import MediaGraph.Proofs.Observation

namespace MediaGraph

variable {σ : Type}

/-! ### What a turn does to the nodes that wait to be asked -/

namespace Network

variable {N : Network} {D : Option NodeId} {n m : NodeId} {s : Flow σ}

variable [Processor σ]

/-- After its own turn a node does not wait to be asked for output. -/
lemma not_output_serve_self (hN : N.Proper) {x : σ} (hx : s.processor m = some x)
    (hq : (N.serve D m s).flow.queued m = true) :
    (N.serve D m s).flow.phase m ≠ .output := by
  have hleft : (s.dequeue m).countTurn.queued m = false := Function.update_self ..
  generalize ht : (s.dequeue m).countTurn = t at hleft
  have hcall : ∀ side : Side,
      (report D m side (N.call m x side t)).flow.queued m = true →
      (report D m side (N.call m x side t)).flow.phase m ≠ .output := by
    intro side hq
    obtain ⟨hqueued, hphase⟩ := queued_phase_call hN m x side t
    rw [phase_report, hphase]
    rcases hr : N.call m x side t with ⟨cause | verdict, u⟩
    · -- a node whose call failed does not wait
      rw [hr] at hq hqueued
      have hu : u.queued m = false := hqueued ▸ hleft
      exact absurd (hu.symm.trans hq) Bool.false_ne_true
    · simp only [Function.update_self]
      cases verdict <;> simp [Node.phaseAfter]
  have hcheckOut : ∀ {u : Flow σ}, u.queued m = false →
      (N.checkOut m u).queued m = false := fun hu =>
    (agreeAt_checkOut_self hN m _).queued.trans hu
  simp only [serve, hx, ht, serveNode] at hq ⊢
  split at hq
  · exact hcall .input hq
  · exact hcall .output hq
  · split at hq
    · exact absurd (hleft.symm.trans hq) Bool.false_ne_true
    · have hself : ¬ N.asksIn D t.slot m m = true := fun hasks => by
        obtain ⟨_, hp, hf⟩ := N.feeds_of_asksIn D hasks
        exact hN.irrefl hp hf
      have hchecked : (N.checkIn D m t).queued m = false := by
        rw [checkIn_eq]
        simp [hleft, hself]
      exact absurd ((hcheckOut hchecked).symm.trans hq) Bool.false_ne_true
  · exact absurd ((hcheckOut hleft).symm.trans hq) Bool.false_ne_true

/-- A turn leaves a node waiting to be asked for output only if it asks for that,
or if it is the turn of another node and the node waited for that before. -/
theorem output_serve (hN : N.Proper) {x : σ} (hx : s.processor m = some x)
    (hq : (N.serve D m s).flow.queued n = true)
    (hφ : (N.serve D m s).flow.phase n = .output) :
    (s.phase m = .checkInput ∧ N.asksIn D s.slot m n = true) ∨
      (n ≠ m ∧ s.queued n = true ∧ s.phase n = .output) := by
  rcases eq_or_ne n m with rfl | hne
  · exact absurd hφ (not_output_serve_self hN hx hq)
  · have hheeds := heeds_serve (D := D) hN hne hx
    by_cases hheard : ∃ p ∈ N.inputs n, p ∈ N.notices m s
    · -- a node to which something was announced waits for its inputs, if at all
      exact nomatch hφ.symm.trans ((hheeds.heard hheard).2 hq)
    · push Not at hheard
      have hagree := hheeds.silent hheard
      rw [hagree.queued] at hq
      rw [hagree.phase] at hφ
      simp only [withAsked, Bool.or_eq_true] at hq hφ
      by_cases hasked : N.asked D m s n = true
      · simp only [asked, Bool.and_eq_true, decide_eq_true_eq] at hasked
        exact Or.inl ⟨hasked.1.1, hasked.2⟩
      · rw [if_neg hasked] at hφ
        exact Or.inr ⟨hne, hq.resolve_right hasked, hφ⟩

/-- A node with a processor is called in its turn if it waits for a call. -/
lemma exists_callback {x : σ} {side : Side} (hx : s.processor m = some x)
    (hφ : s.phase m = side.phase) :
    ∃ r, (N.serve D m s).callback = some ⟨m, side, r⟩ := by
  have hreport : ∀ r : Except ProcessError Verdict × Flow σ,
      ∃ r', (report D m side r).callback = some ⟨m, side, r'⟩ := by
    rintro ⟨_ | _, t⟩ <;> exact ⟨_, rfl⟩
  have hφ : (s.dequeue m).countTurn.phase m = side.phase := hφ
  rw [serve, hx]
  cases side <;>
  · simp only [serveNode, hφ, Side.phase]
    exact hreport _

end Network

/-! ### Requests -/

namespace Graph

/-- In this turn, which starts from the first graph, `c` checks its inputs. One of
them is linked to `n` and drained, and `n` is not the driver or is
asynchronous. -/
structure Asks (x : Graph σ × Turn σ) (c n : NodeId) : Prop where
  checks : x.1.IsTurnOf c .checkInput
  drained : ∃ p ∈ x.1.inputsOf c, x.1.feeder? p = some n ∧
    (x.1.slotOf? p).any (·.needsData) = true
  allowed : x.1.driver ≠ some n ∨
    ∃ node, x.1.nodes.get? n = some node ∧ node.flags.async = true

/-- After these turns of an activation of `d`, there is a request for the output of
a node: it was asked, and not called for output since; or it is the pushed driver,
and no turn was taken. -/
inductive Requested (mode : Mode) (d : NodeId) :
    List (Graph σ × Turn σ) → NodeId → Prop
  | pushed : mode = .push → Requested mode d [] d
  | asked {pre post : List (Graph σ × Turn σ)} {x : Graph σ × Turn σ}
      {c n : NodeId} : Asks x c n →
      (∀ y ∈ post, ∀ r, y.2.callback ≠ some ⟨n, .output, r⟩) →
      Requested mode d (pre ++ x :: post) n

variable [Processor σ] {t : Graph σ} {turn : Turn σ} {Λ : Layout} {s : Flow σ}
  {n m d : NodeId} {mode : Mode} {past pre post : List (Graph σ × Turn σ)}

omit [Processor σ] in
/-- A request stands until its node is called for output. -/
lemma Requested.concat (h : Requested mode d past n) (hne : past ≠ [])
    {x : Graph σ × Turn σ} (hx : ∀ r, x.2.callback ≠ some ⟨n, .output, r⟩) :
    Requested mode d (past ++ [x]) n := by
  cases h with
  | pushed => exact absurd rfl hne
  | @asked pre post y c _ hasks hpost =>
      rw [List.append_assoc, List.cons_append]
      refine .asked hasks fun z hz => ?_
      rcases List.mem_append.mp hz with hz | hz
      · exact hpost z hz
      · obtain rfl := List.mem_singleton.mp hz
        exact hx

omit [Processor σ] in
/-- A node that waits has a processor. -/
lemma Shows.exists_processor {D : Option NodeId} (hΛ : Λ.Proper) (h : t.Shows Λ D s)
    (hn : s.queued n = true) : ∃ x, s.processor n = some x := by
  obtain ⟨node, hn⟩ := h.exists_node_of_queued hΛ hn
  exact ⟨node.processor, by rw [← h.processor?_eq, processor?, hn, Option.map_some]⟩

omit [Processor σ] in
lemma Shows.async_eq {D : Option NodeId} (h : t.Shows Λ D s) {node : Node σ}
    (hn : t.nodes.get? n = some node) : Λ.network.async n = node.flags.async := by
  simp [Layout.network, h.node hn, Node.layout]

omit [Processor σ] in
/-- What is asked for in the network of a graph is asked for in the graph. -/
lemma Shows.asks (hΛ : Λ.Proper) (h : t.Shows Λ (some d) s)
    (hof : t.IsTurnOf m .checkInput)
    (hasks : Λ.network.asksIn (some d) s.slot m n = true) : Asks (t, turn) m n := by
  obtain ⟨p, hp, hfeeder, hdrained, hallowed⟩ := Network.asksIn_eq_true.mp hasks
  refine ⟨hof, ⟨p, (h.inputsOf_eq m).symm ▸ hp, (h.feeder?_eq p).trans hfeeder, ?_⟩, ?_⟩
  · rw [h.slotOf?_input hΛ hp, Network.linked?, hfeeder]
    simpa [Slot.needsData] using hdrained
  · refine hallowed.imp (fun hne => by rwa [h.driver]) fun hasync => ?_
    obtain ⟨ν, hν, hflag⟩ := (Option.any_eq_true _ _).mp hasync
    obtain ⟨node, hn, rfl⟩ := h.exists_node hν
    exact ⟨node, hn, hflag⟩

omit [Processor σ] in
/-- A driver that was asked is asynchronous. -/
lemma Shows.async_of_asks (h : t.Shows Λ (some d) s) {c : NodeId}
    (hasks : Asks (t, turn) c d) : Λ.network.async d = true := by
  rcases hasks.allowed with hne | ⟨node, hn, hasync⟩
  · exact absurd h.driver hne
  · exact (h.async_eq hn).trans hasync

/-- The nodes that wait to be asked for output are requested, and before the first
turn only the driver waits. -/
structure Shows.Due (mode : Mode) (d : NodeId) (past : List (Graph σ × Turn σ))
    (s : Flow σ) : Prop where
  requested : ∀ n, s.queued n = true → s.phase n = .output → Requested mode d past n
  first : past = [] → ∀ n, s.queued n = true → n = d

omit [Processor σ] in
/-- When an activation starts only its driver waits. -/
lemma Shows.Due.start (hidle : ∀ n, s.queued n = false) (mode : Mode) (d : NodeId) :
    Shows.Due mode d ([] : List (Graph σ × Turn σ)) (s.start mode d) := by
  refine ⟨fun n hn hφ => ?_, fun _ n hn => (Flow.waits_start hidle hn).1⟩
  obtain ⟨rfl, hmode⟩ := Flow.waits_start hidle hn
  cases mode with
  | pull => exact nomatch hmode.symm.trans hφ
  | push => exact .pushed rfl

/-- A turn leaves only requested nodes waiting to be asked for output. -/
lemma Shows.Due.turn? (hdue : Shows.Due mode d past s) (hΛ : Λ.Proper)
    (h : t.Shows Λ (some d) s) (hturn : t.turn? = some turn) :
    ∃ u, turn.graph.Shows Λ (some d) u ∧ Shows.Due mode d (past ++ [(t, turn)]) u := by
  obtain ⟨m, hfirst, hqueued, hturned⟩ := h.exists_turn_first hΛ hturn
  obtain ⟨x, hx⟩ := h.exists_processor hΛ hqueued
  refine ⟨_, hturned.graph, fun n hq hφ => ?_, fun hnil => ?_⟩
  · rcases Network.output_serve hΛ.network hx hq hφ with ⟨hcheck, hasks⟩ | ⟨hne, hq, hφ⟩
    · have hrequest : Asks (t, turn) m n :=
        h.asks hΛ (hcheck ▸ h.isTurnOf hΛ hfirst hqueued) hasks
      exact .asked hrequest (List.forall_mem_nil _)
    · refine (hdue.requested n hq hφ).concat (fun hnil => ?_) fun r hcall => ?_
      · -- before the first turn nobody but the driver waits
        exact hne ((hdue.first hnil n hq).trans (hdue.first hnil m hqueued).symm)
      · rw [hturned.callback] at hcall
        exact hne (Network.phase_of_callback hcall).1
  · simp at hnil

/-- Every call for output of a run was requested. -/
theorem Shows.requested_of_course (hΛ : Λ.Proper) (h : t.Shows Λ (some d) s)
    (hdue : Shows.Due mode d past s) {budget : Nat} {u : Graph σ}
    {r : Except ProcessError Verdict}
    (hcourse : course budget t = pre ++ (u, turn) :: post)
    (hcall : turn.callback = some ⟨n, .output, r⟩) :
    Requested mode d (past ++ pre) n := by
  induction pre generalizing t s past budget with
  | nil =>
      obtain ⟨rfl, hturn, -⟩ := exists_of_course_cons hcourse
      obtain ⟨m, hqueued, hturned⟩ := h.turn? hΛ hturn
      rw [hturned.callback] at hcall
      obtain ⟨rfl, hφ⟩ := Network.phase_of_callback hcall
      rw [List.append_nil]
      exact hdue.requested n hqueued hφ
  | cons x pre ih =>
      obtain ⟨v, first⟩ := x
      obtain ⟨rfl, hturn, rest, -, hrest⟩ := exists_of_course_cons hcourse
      obtain ⟨w, hw, hdue⟩ := hdue.turn? hΛ h hturn
      rw [← List.singleton_append, ← List.append_assoc]
      split at hrest
      · exact ih hw hdue hrest.symm
      · simp at hrest

end Graph

/-! ### Every graph of a client -/

/-- In every activation of every graph that a client can make, cycles included and
whatever the processors do, a node is called for output only if there is a request
for it: it is the pushed driver and the first to have a turn, or a node that checks
its inputs found the link from it drained, and asked it, since it was last called
for output. A driver that is not asynchronous is called for output once if it is
pushed, and never if it is pulled. -/
theorem Action.demand_gate [Processor σ] (actions : List (Action σ)) (budget : Nat)
    (mode : Mode) (d : NodeId) :
    (∀ pre t turn post n r,
      (Action.graph actions).turns budget mode d = pre ++ (t, turn) :: post →
      turn.callback = some ⟨n, .output, r⟩ → Graph.Requested mode d pre n) ∧
    (∀ node, (Action.graph actions).nodes.get? d = some node →
      node.flags.async = false →
      ((Action.graph actions).activate (budget + 1) mode d).callbacks.countP
          (fun c => c.node = d && c.side = .output) =
        match mode with
        | .pull => 0
        | .push => 1) := by
  have htidy := Action.tidy_graph actions
  generalize Action.graph actions = g at htidy ⊢
  have hgate : ∀ {budget pre t turn post n r},
      g.turns budget mode d = pre ++ (t, turn) :: post →
      turn.callback = some ⟨n, .output, r⟩ → Graph.Requested mode d pre n := by
    intro budget pre t turn post n r hturns hcall
    rcases hd : g.nodes.get? d with _ | node
    · simp [Graph.turns, hd] at hturns
    · rw [Graph.turns_of_get? hd] at hturns
      have hdue := Graph.Shows.Due.start htidy.queued_eq_false mode d
      exact (htidy.shows.start htidy.layout (htidy.shows.node hd) mode).requested_of_course
        htidy.layout hdue hturns hcall
  refine ⟨fun pre t turn post n r => hgate, fun node hd hasync => ?_⟩
  have hshows := htidy.shows.start htidy.layout (htidy.shows.node hd) mode
  have hsync : g.layout.network.async d = false :=
    (htidy.shows.async_eq hd).trans hasync
  -- a driver that is not asynchronous is not asked, so it is called as pushed, if at all
  have hfirst : ∀ {budget pre x post r}, g.turns budget mode d = pre ++ x :: post →
      x.2.callback = some ⟨d, .output, r⟩ → pre = [] ∧ mode = .push := by
    intro budget pre x post r hturns hcall
    have hrequested := hgate hturns hcall
    generalize hpast : pre = past at hrequested
    cases hrequested with
    | pushed hmode => exact ⟨rfl, hmode⟩
    | @asked pre' post' y c _ hasks _ =>
        have hmem : y ∈ g.turns budget mode d := by simp [hturns, hpast]
        obtain ⟨s, hs, -⟩ := (Graph.takesTurns_of_mem_turns hmem).1.invariant
          (P := fun _ => True) htidy.layout hshows trivial fun _ _ _ _ => trivial
        exact absurd hsync (by simp [hs.async_of_asks hasks])
  have hnone : ∀ {budget rest} past, g.turns budget mode d = past ++ rest →
      past ≠ [] ∨ mode = .pull → (rest.filterMap (·.2.callback)).countP
        (fun c => c.node = d && c.side = .output) = 0 := by
    intro budget rest past hturns hpast
    refine List.countP_eq_zero.mpr fun c hc hout => ?_
    obtain ⟨x, hx, hcall⟩ := List.mem_filterMap.mp hc
    obtain ⟨pre, post, rfl⟩ := List.append_of_mem hx
    obtain ⟨m, side, r⟩ := c
    obtain ⟨rfl, rfl⟩ : m = d ∧ side = .output := by simpa using hout
    rw [← List.append_assoc] at hturns
    obtain ⟨hnil, rfl⟩ := hfirst hturns hcall
    rcases hpast with hpast | hpull
    · exact hpast (List.append_eq_nil_iff.mp hnil).1
    · cases hpull
  rw [Graph.callbacks_activate]
  cases mode with
  | pull => exact hnone [] rfl (Or.inr rfl)
  | push =>
      have hqueued : (g.flow.start .push d).queued d = true := Function.update_self ..
      rcases hturn : (g.start .push d).turn? with _ | first
      · rw [hshows.turn?_eq_none.mp hturn d] at hqueued
        cases hqueued
      · obtain ⟨m, hm, hturned⟩ := hshows.turn? htidy.layout hturn
        obtain ⟨rfl, hφ⟩ := Flow.waits_start htidy.queued_eq_false hm
        obtain ⟨x, hx⟩ := hshows.exists_processor htidy.layout hm
        have houtput : (g.flow.start .push m).phase m = Side.output.phase := hφ
        obtain ⟨r, hcall⟩ := Network.exists_callback (N := g.layout.network)
          (D := some m) hx houtput
        obtain ⟨rest, hturns⟩ : ∃ rest, g.turns (budget + 1) .push m =
            (g.start .push m, first) :: rest :=
          ⟨_, (Graph.turns_of_get? hd (budget + 1) .push).trans
            (Graph.course_succ hturn budget)⟩
        have hrest := hnone [_] hturns (Or.inl (List.cons_ne_nil _ _))
        rw [hturns, List.filterMap_cons, hturned.callback, hcall]
        simp only
        rw [List.countP_cons_of_pos (by simp), hrest]

end MediaGraph

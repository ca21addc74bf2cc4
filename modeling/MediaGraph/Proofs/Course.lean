/-
The course of an activation: its turns one after the other.

* `Graph.course`, `Graph.turns`: the turns that are taken, each with the graph
  that it starts from, in a run of turns and in an activation;
* `Graph.IsTurnOf`: whose turn it is, and in which phase;
* `TakesTurns.of_mem_course`, `settle_of_course_append`: every member of a course
  is a turn of the activation, and what follows a member is the course of the
  graph that the member leaves behind;
* `Graph.Stops`, `settle_stops`: how a course ends;
* `Tidy.exists_first_turn`, `Tidy.activate_of_failure`: the first turn of an activation
  is that of its driver, and if it fails then the activation ends so;
* `callbacks_activate`, `activate_stops`: the calls and the end of an activation.
-/
import MediaGraph.Proofs.Readiness

namespace MediaGraph

/-- Marks and counts agree in every graph that actions make of the empty one. -/
lemma Action.tallied_graph {σ : Type} [Processor σ] (actions : List (Action σ)) :
    (Action.graph actions).Tallied :=
  (Action.graph_induction (P := fun g : Graph σ => g.Tidy ∧ g.Tallied)
    ⟨Graph.Tidy.empty, Graph.Tallied.empty⟩
    (fun a _ h => ⟨h.1.perform a, h.2.perform h.1 a⟩) actions).2

namespace Graph

variable {σ : Type}

/-! ### Turns -/

/-- It is the turn of a node, which is in this phase. -/
def IsTurnOf (g : Graph σ) (n : NodeId) (φ : Phase) : Prop :=
  g.ready.first = some n ∧ (g.nodes.get? n).map (·.phase) = some φ

instance (g : Graph σ) (n : NodeId) (φ : Phase) : Decidable (g.IsTurnOf n φ) :=
  inferInstanceAs (Decidable (_ ∧ _))

namespace Shows

variable {g : Graph σ} {Λ : Layout} {D : Option NodeId} {s : Flow σ} {n : NodeId}
  {node : Node σ}

lemma phase_eq (h : g.Shows Λ D s) (hn : g.nodes.get? n = some node) :
    s.phase n = node.phase := by
  rw [← h.flow]
  simp [Graph.flow, hn]

lemma ready_eq (h : g.Shows Λ D s) (hn : g.nodes.get? n = some node) :
    s.ready n = node.readyIn := by
  rw [← h.flow]
  simp [Graph.flow, hn]

lemma required_eq (h : g.Shows Λ D s) (hn : g.nodes.get? n = some node) :
    Λ.network.required n = node.requiredIn := by
  simp [Layout.network, h.node hn, Node.layout]

lemma contains_eq (h : g.Shows Λ D s) (n : NodeId) :
    g.ready.contains n = s.queued n := by
  rw [← h.flow]
  rfl

/-- The node at the head of the queue has its turn in the phase that the flow
says. -/
lemma isTurnOf (hΛ : Λ.Proper) (h : g.Shows Λ D s) (hfirst : g.ready.first = some n)
    (hqueued : s.queued n = true) : g.IsTurnOf n (s.phase n) := by
  obtain ⟨node, hn⟩ := h.exists_node_of_queued hΛ hqueued
  exact ⟨hfirst, by rw [hn, Option.map_some, h.phase_eq hn]⟩

end Shows

variable [Processor σ]

/-- The turns that are taken one after the other, each with the graph that it
starts from, at most `budget` of them. A turn that fails is the last one. -/
def course : Nat → Graph σ → List (Graph σ × Turn σ)
  | 0, _ => []
  | budget + 1, g =>
    match g.turn? with
    | none => []
    | some turn =>
      (g, turn) :: if turn.failure.isNone then course budget turn.graph else []

/-- The turns of an activation. -/
def turns (budget : Nat) (mode : Mode) (n : NodeId) (g : Graph σ) :
    List (Graph σ × Turn σ) :=
  match g.nodes.get? n with
  | none => []
  | some _ => course budget (g.start mode n)

variable {g t : Graph σ} {turn : Turn σ} {budget : Nat} {mode : Mode} {n : NodeId}
  {calls : List Callback} {pre post : List (Graph σ × Turn σ)}

lemma course_of_none (h : g.turn? = none) (budget : Nat) : course budget g = [] := by
  cases budget with
  | zero => rfl
  | succ budget => rw [course, h]

lemma course_succ (h : g.turn? = some turn) (budget : Nat) :
    course (budget + 1) g =
      (g, turn) :: if turn.failure.isNone then course budget turn.graph else [] := by
  rw [course, h]

/-- A course that is not empty starts with the turn of its graph, and goes on
unless that turn fails. -/
lemma exists_of_course_cons (h : course budget g = (t, turn) :: post) :
    t = g ∧ g.turn? = some turn ∧ ∃ rest, budget = rest + 1 ∧
      post = if turn.failure.isNone then course rest turn.graph else [] := by
  cases budget with
  | zero => cases h
  | succ rest =>
      rcases hturn : g.turn? with _ | first
      · rw [course_of_none hturn] at h
        cases h
      · rw [course_succ hturn] at h
        cases h
        exact ⟨rfl, rfl, rest, rfl, rfl⟩

lemma turns_of_get? {node : Node σ} (hn : g.nodes.get? n = some node) (budget : Nat)
    (mode : Mode) : g.turns budget mode n = course budget (g.start mode n) := by
  rw [turns, hn]

/-! ### Members of a course -/

/-- Every member of a course is a turn of the graph that it starts from, which
is reached without a failure. -/
lemma TakesTurns.of_mem_course {u : Graph σ} (hu : g.TakesTurns u)
    (h : (t, turn) ∈ course budget u) : g.TakesTurns t ∧ t.turn? = some turn := by
  induction budget generalizing u with
  | zero => cases h
  | succ budget ih =>
      rcases hturn : u.turn? with _ | first
      · rw [course_of_none hturn] at h
        cases h
      · rw [course_succ hturn] at h
        rcases List.mem_cons.mp h with he | hrest
        · cases he
          exact ⟨hu, hturn⟩
        · split at hrest
          · rename_i hf
            exact ih (hu.turn hturn (by simpa using hf)) hrest
          · cases hrest

/-- Every turn of an activation is one of those that start with its driver. -/
lemma takesTurns_of_mem_turns (h : (t, turn) ∈ g.turns budget mode n) :
    (g.start mode n).TakesTurns t ∧ t.turn? = some turn := by
  unfold turns at h
  split at h
  · cases h
  · exact TakesTurns.refl.of_mem_course h

/-- A course from one of its turns on is the course of the graph that this turn
starts from, and ends in the same way. -/
lemma exists_of_course_append (h : course budget g = pre ++ (t, turn) :: post) :
    t.turn? = some turn ∧ ∃ rest,
      post = (if turn.failure.isNone then course rest turn.graph else []) ∧
        ∀ calls, ∃ calls', settle budget g calls = settle (rest + 1) t calls' := by
  induction pre generalizing budget g with
  | nil =>
      cases budget with
      | zero => cases h
      | succ budget =>
          rcases hg : g.turn? with _ | first
          · rw [course_of_none hg] at h
            cases h
          · rw [course_succ hg, List.nil_append, List.cons.injEq,
              Prod.mk.injEq] at h
            obtain ⟨⟨rfl, rfl⟩, rfl⟩ := h
            exact ⟨hg, budget, rfl, fun calls => ⟨calls, rfl⟩⟩
  | cons x pre ih =>
      cases budget with
      | zero => cases h
      | succ budget =>
          rcases hg : g.turn? with _ | first
          · rw [course_of_none hg] at h
            cases h
          · rw [course_succ hg, List.cons_append, List.cons.injEq] at h
            obtain ⟨-, h⟩ := h
            split at h
            · rename_i hf
              obtain ⟨hturn, rest, hpost, hsettle⟩ := ih h
              refine ⟨hturn, rest, hpost, fun calls => ?_⟩
              rw [settle_succ hg, Option.isNone_iff_eq_none.mp hf]
              exact hsettle _
            · simp at h

/-- After a turn of a course that ends well the rest of it ends well. -/
lemma settle_of_course_append (h : course budget g = pre ++ (t, turn) :: post)
    (hok : (settle budget g calls).result = .ok ()) :
    turn.failure = none ∧ ∃ rest, post = course rest turn.graph ∧
      (settle rest turn.graph []).result = .ok () := by
  obtain ⟨hturn, rest, hpost, hsettle⟩ := exists_of_course_append h
  obtain ⟨calls', hcalls⟩ := hsettle calls
  rw [hcalls, settle_succ hturn] at hok
  rcases hf : turn.failure with _ | e
  · rw [hf] at hok hpost
    exact ⟨rfl, rest, hpost, (result_settle _ _ _).trans hok⟩
  · rw [hf] at hok
    cases hok

/-! ### The end of a course -/

/-- How a course of at most `budget` turns that starts from `g` ends: with which
graph and which result. -/
inductive Stops (budget : Nat) (g : Graph σ) :
    Graph σ → Except ActivationError Unit → Prop
  /-- Nobody waits any more, and no turn failed. -/
  | settled {t : Graph σ} : g.TakesTurns t → t.turn? = none →
      (∀ x ∈ course budget g, x.2.failure = none) → Stops budget g t (.ok ())
  /-- The last turn failed. -/
  | failed {t : Graph σ} {turn : Turn σ} {e : ActivationError} :
      (course budget g).getLast? = some (t, turn) → turn.failure = some e →
      Stops budget g turn.graph (.error e)
  /-- All turns are used up, and somebody waits. -/
  | exhausted {t : Graph σ} {turn : Turn σ} : g.TakesTurns t →
      t.turn? = some turn → (course budget g).length = budget →
      Stops budget g t (.error .tooManyTurns)

/-- A turn that does not fail comes before the others. -/
private lemma TakesTurns.trans_turn {u : Graph σ} (hturn : g.turn? = some turn)
    (hf : turn.failure = none) (h : turn.graph.TakesTurns u) : g.TakesTurns u := by
  induction h with
  | refl => exact .turn .refl hturn hf
  | turn _ hu hnone ih => exact .turn ih hu hnone

/-- Turns end in one of these ways. -/
theorem settle_stops (budget : Nat) (g : Graph σ) (calls : List Callback) :
    Stops budget g (settle budget g calls).graph (settle budget g calls).result := by
  induction budget generalizing g calls with
  | zero =>
      rcases hturn : g.turn? with _ | turn
      · rw [settle_of_none hturn]
        exact .settled .refl hturn (by simp [course])
      · rw [settle_zero hturn]
        exact .exhausted .refl hturn rfl
  | succ budget ih =>
      rcases hturn : g.turn? with _ | turn
      · rw [settle_of_none hturn]
        exact .settled .refl hturn (by simp [course_of_none hturn])
      · rw [settle_succ hturn]
        have hcourse := course_succ hturn budget
        rcases hf : turn.failure with _ | e
        · rw [hf, Option.isNone_none, if_pos rfl] at hcourse
          have hstops := ih turn.graph (turn.callback.toList ++ calls)
          generalize settle budget turn.graph (turn.callback.toList ++ calls) = a
            at hstops
          rcases a with ⟨u, r, _⟩
          cases hstops with
          | settled ht hnone hall =>
              refine .settled (.trans_turn hturn hf ht) hnone fun x hx => ?_
              rw [hcourse] at hx
              rcases List.mem_cons.mp hx with rfl | hx
              · exact hf
              · exact hall x hx
          | failed hlast hfail =>
              have hlast' := List.getLast?_cons (a := (g, turn)) (l := course budget
                turn.graph)
              rw [← hcourse, hlast, Option.getD_some] at hlast'
              exact .failed hlast' hfail
          | exhausted ht hsome hlen =>
              refine .exhausted (.trans_turn hturn hf ht) hsome ?_
              rw [hcourse, List.length_cons, hlen]
        · rw [hf, Option.isNone_some, if_neg Bool.false_ne_true] at hcourse
          exact .failed (by rw [hcourse, List.getLast?_singleton]) hf

/-! ### Calls -/

/-- The calls are those of the turns. -/
lemma callbacks_settle (budget : Nat) (g : Graph σ) (calls : List Callback) :
    (settle budget g calls).callbacks =
      ((course budget g).filterMap (·.2.callback)).reverse ++ calls := by
  induction budget generalizing g calls with
  | zero =>
      rcases hturn : g.turn? with _ | turn
      · rw [settle_of_none hturn]
        rfl
      · rw [settle_zero hturn]
        rfl
  | succ budget ih =>
      rcases hturn : g.turn? with _ | turn
      · rw [settle_of_none hturn, course_of_none hturn]
        rfl
      · rw [settle_succ hturn, course_succ hturn]
        rcases hf : turn.failure with _ | e <;> rcases hc : turn.callback with _ | c
        · simp [ih, hc]
        · simp [ih, hc]
        · simp [hc]
        · simp [hc]

/-- The calls of an activation are those of its turns. -/
theorem callbacks_activate (budget : Nat) (mode : Mode) (n : NodeId) (g : Graph σ) :
    (g.activate budget mode n).callbacks =
      (g.turns budget mode n).filterMap (·.2.callback) := by
  rcases hn : g.nodes.get? n with _ | node
  · simp only [activate, turns, hn, List.filterMap_nil]
  · simp [activate, turns, hn, finish, callbacks_settle]

/-- The first turn of an activation is that of its driver. -/
lemma Tidy.exists_first_turn (h : g.Tidy) {node : Node σ} (hn : g.nodes.get? n = some node)
    (mode : Mode) : ∃ turn, (g.start mode n).turn? = some turn ∧
      Shows.Turned turn g.layout (some n)
        (g.layout.network.serve (some n) n (g.flow.start mode n)) := by
  have hstart := h.shows.start h.layout (h.shows.node hn) mode
  have honly : ∀ m, (g.flow.start mode n).queued m = true → m = n := by
    intro m hm
    by_contra hne
    simp [Flow.start, Flow.enqueue, Flow.setPhase, hne, h.queued_eq_false] at hm
  rcases hturn : (g.start mode n).turn? with _ | turn
  · have hnone := hstart.turn?_eq_none.mp hturn n
    simp [Flow.start, Flow.enqueue] at hnone
  · obtain ⟨m, hm, hturned⟩ := hstart.turn? h.layout hturn
    obtain rfl := honly m hm
    exact ⟨turn, rfl, hturned⟩

/-- If the first turn fails then the activation ends so. -/
lemma Tidy.activate_of_failure (h : g.Tidy) {node : Node σ} (hn : g.nodes.get? n = some node)
    {e : ActivationError} (hbudget : 0 < budget)
    (hfailure : (g.layout.network.serve (some n) n (g.flow.start mode n)).failure = some e) :
    (g.activate budget mode n).result = .error e := by
  obtain ⟨budget, rfl⟩ := Nat.exists_eq_add_one.mpr hbudget
  obtain ⟨turn, hturn, hturned⟩ := h.exists_first_turn hn mode
  simp only [Graph.activate, hn, settle_succ hturn, hturned.failure, hfailure, finish]

/-- How an activation of a live node ends, before the queue is emptied. -/
lemma activate_stops {node : Node σ} (hn : g.nodes.get? n = some node) (budget : Nat)
    (mode : Mode) : ∃ u, Stops budget (g.start mode n) u
        (g.activate budget mode n).result ∧
      (g.activate budget mode n).graph.nodes = u.nodes ∧
      (g.activate budget mode n).graph.ports = u.ports ∧
      (g.activate budget mode n).graph.slots = u.slots := by
  simp only [activate, hn]
  exact ⟨_, settle_stops budget (g.start mode n) [], rfl, rfl, rfl⟩

end Graph

end MediaGraph

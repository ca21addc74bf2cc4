/-
Pulling a node again after its own call failed.

* `Graph.Hears`: a turn announces the link to an input;
* `Graph.Told`: since a node was checked, an input of it was untouched, or was
  announced while it held data;
* `Graph.Awaits`: what a pulled node waits for after some turns of its activation;
* `Shows.called_iff`: a pulled node is called exactly if some input of it is
  announced and it was told of all that it requires;
* `Action.retry_calls_iff`: so it is when a node is pulled again after its call
  failed, and then nothing at all is called if its inputs hold data and its outputs
  are not linked.
-/
import MediaGraph.Adapter
import MediaGraph.Proofs.Announcements
import MediaGraph.Proofs.Counters
import MediaGraph.Proofs.Quiescence
import MediaGraph.Proofs.Requests
import MediaGraph.Proofs.Satisfied

namespace MediaGraph

variable {σ : Type}

namespace Network

variable {N : Network} {c : NodeId} {s : Flow σ}

/-- A node is not asynchronous, and requires exactly its inputs that are not
optional, of which there are some. -/
structure Ordinary (N : Network) (c : NodeId) : Prop where
  sync : N.async c = false
  required : N.required c = (N.inputs c).countP fun p => !N.optional p
  pos : 0 < N.required c

/-- A pulled node that is not asynchronous is not asked for output. -/
lemma Ordinary.asked_eq_false (hc : N.Ordinary c) (m : NodeId) (s : Flow σ) :
    N.asked (some c) m s c = false := by
  simp [asked, asksIn, asks, hc.sync]

lemma demandsNothing_of_pos (h : 0 < N.required c) : N.demandsNothing c = false := by
  simp [demandsNothing, Nat.ne_of_gt h]

/-- A count is complete exactly if all required inputs are marked. -/
lemma Exact.complete_iff (h : N.Exact c s) (hs : N.Tallied s) (hc : N.Ordinary c) :
    s.ready c = N.required c ↔
      ∀ p ∈ N.inputs c, N.optional p = false → s.counted p = true := by
  rw [h, hc.required]
  constructor
  · intro hcount p hp ho
    exact of_countP_eq (fun q _ hq => by simp [(hs.counted hq).2.2]) hcount hp (by simp [ho])
  · intro hall
    refine List.countP_congr fun p hp => ⟨fun hm => by simp [(hs.counted hm).2.2], ?_⟩
    exact fun ho => hall p hp (by simpa using ho)

end Network

namespace Graph

/-! ### What a node is told -/

/-- In this turn, which starts from the first graph, the link to an input is
announced. -/
def Hears (x : Graph σ × Turn σ) (p : PortId) : Prop :=
  ∃ m, x.1.feeder? p = some m ∧ Announces x m

/-- An input was fresh when its node was checked, or its link was announced in one of
these turns while it held data. -/
def Told (fresh : PortId → Bool) (past : List (Graph σ × Turn σ)) (p : PortId) : Prop :=
  fresh p = true ∨ ∃ x ∈ past, Hears x p ∧ x.1.hasData p = true

variable {fresh : PortId → Bool} {past : List (Graph σ × Turn σ)} {x : Graph σ × Turn σ}
  {p : PortId}

lemma Told.append (h : Told fresh past p) (post : List (Graph σ × Turn σ)) :
    Told fresh (past ++ post) p :=
  h.imp_right fun ⟨x, hx, h⟩ => ⟨x, List.mem_append_left _ hx, h⟩

lemma told_concat : Told fresh (past ++ [x]) p ↔
    Told fresh past p ∨ Hears x p ∧ x.1.hasData p = true := by
  simp only [Told, List.mem_append, List.mem_singleton, or_assoc]
  refine or_congr_right ⟨?_, ?_⟩
  · rintro ⟨y, hy | rfl, h⟩
    · exact Or.inl ⟨y, hy, h⟩
    · exact Or.inr h
  · rintro (⟨y, hy, h⟩ | h)
    · exact ⟨y, Or.inl hy, h⟩
    · exact ⟨x, Or.inr rfl, h⟩

/-- After these turns a node that was checked has heard of one of the inputs `l`, and
it was told of all of them that are required. -/
structure Recalls (l : List PortId) (required : PortId → Bool) (fresh : PortId → Bool)
    (past : List (Graph σ × Turn σ)) : Prop where
  hears : ∃ x ∈ past, ∃ p ∈ l, Hears x p
  told : ∀ p ∈ l, required p = true → Told fresh past p

lemma Recalls.append {l : List PortId} {required : PortId → Bool}
    (h : Recalls l required fresh past) (post : List (Graph σ × Turn σ)) :
    Recalls l required fresh (past ++ post) where
  hears := h.hears.imp fun _ h => ⟨List.mem_append_left _ h.1, h.2⟩
  told p hp hr := (h.told p hp hr).append post

/-- A turn that announces none of the inputs is not heard of. -/
lemma recalls_concat_of_deaf {l : List PortId} {required : PortId → Bool}
    (hdeaf : ∀ p ∈ l, ¬ Hears x p) :
    Recalls l required fresh (past ++ [x]) ↔ Recalls l required fresh past := by
  refine ⟨fun h => ⟨?_, fun p hp hr => ?_⟩, fun h => h.append _⟩
  · obtain ⟨y, hy, p, hp, hh⟩ := h.hears
    rcases List.mem_append.mp hy with hy | hy
    · exact ⟨y, hy, p, hp, hh⟩
    · obtain rfl := List.mem_singleton.mp hy
      exact absurd hh (hdeaf p hp)
  · exact (told_concat.mp (h.told p hp hr)).resolve_right fun hh => hdeaf p hp hh.1

/-- Nothing is heard of before the first turn. -/
lemma not_recalls_nil {l : List PortId} {required : PortId → Bool} :
    ¬ Recalls l required fresh ([] : List (Graph σ × Turn σ)) := by
  intro h
  obtain ⟨x, hx, -⟩ := h.hears
  exact absurd hx List.not_mem_nil

/-- Only what is said of the listed inputs matters. -/
lemma Recalls.congr {l : List PortId} {required required' fresh' : PortId → Bool}
    (hr : ∀ p ∈ l, required p = required' p)
    (hf : ∀ p ∈ l, required p = true → fresh p = fresh' p)
    (h : Recalls l required fresh past) : Recalls l required' fresh' past where
  hears := h.hears
  told p hp hp' := by
    have hreq : required p = true := (hr p hp).trans hp'
    have htold := h.told p hp hreq
    rwa [Told, hf p hp hreq] at htold

/-- An input is linked, and nothing was said about its link yet. -/
def isFresh (g : Graph σ) (p : PortId) : Bool :=
  (g.slotOf? p).any fun s => s.status = .ok

variable [Processor σ] {t : Graph σ} {turn : Turn σ} {Λ : Layout} {s : Flow σ}
  {c m d : NodeId}

/-- A turn that does not fail announces the link to an input exactly if it is among
the notices of its node. -/
lemma Shows.hears_iff (hΛ : Λ.Proper) (h : t.Shows Λ (some d) s)
    (hturn : t.turn? = some turn) (hf : turn.failure = none)
    (hfirst : t.ready.first = some m) (hqueued : s.queued m = true)
    (hturned : Turned turn Λ (some d) (Λ.network.serve (some d) m s))
    (hp : p ∈ Λ.network.inputs c) :
    Hears (t, turn) p ↔ p ∈ Λ.network.notices m s := by
  obtain ⟨x, hx⟩ := h.exists_processor hΛ hqueued
  have hof := h.isTurnOf hΛ hfirst hqueued
  have htarget : t.feeder? p = some m ↔ p ∈ Λ.network.targets m := by
    rw [h.feeder?_eq]
    exact hΛ.network.feeder hp m
  have hphase : ∀ {φ : Phase}, t.IsTurnOf m φ → s.phase m = φ := fun hof' =>
    Option.some.inj (hof.2.symm.trans hof'.2)
  constructor
  · rintro ⟨m', hfeeder, hannounces⟩
    obtain rfl : m = m' := Option.some.inj (hfirst.symm.trans hannounces.first_eq)
    have hproceeds : Λ.network.Proceeds m s := by
      cases hannounces with
      | checkOutput hof' => exact Or.inl (hphase hof')
      | checkInput hof' =>
          have hφ := hphase hof'
          refine Or.inr ⟨hφ, ?_⟩
          by_contra hd
          have hφ : (s.dequeue m).countTurn.phase m = .checkInput := hφ
          rw [hturned.failure, Network.serve, hx] at hf
          simp [Network.serveNode, hφ, hd] at hf
    rw [Network.notices, if_pos hproceeds]
    exact htarget.mp hfeeder
  · intro hnotice
    rw [Network.notices] at hnotice
    split at hnotice
    · rename_i hproceeds
      refine ⟨m, htarget.mpr hnotice, announces_of_isTurnOf hturn hf ?_⟩
      rcases hproceeds with hφ | ⟨hφ, -⟩
      · exact Or.inr (hφ ▸ hof)
      · exact Or.inl (hφ ▸ hof)
    · cases hnotice

/-! ### What a pulled node waits for -/

/-- After these turns, since it was checked, the pulled node `c` counts the required
inputs that it was told of. It waits exactly if it heard of one of its inputs and was
told of all that are required, and then it waits to process them. -/
structure Shows.Awaits (Λ : Layout) (c : NodeId) (fresh : PortId → Bool)
    (past : List (Graph σ × Turn σ)) (s : Flow σ) : Prop where
  tallied : Λ.network.Tallied s
  exact : Λ.network.Exact c s
  counted : ∀ p ∈ Λ.network.inputs c, Λ.network.optional p = false →
    (s.counted p = true ↔ Told fresh past p)
  waits : s.queued c = true ↔
    Recalls (Λ.network.inputs c) (fun p => !Λ.network.optional p) fresh past
  phase : s.queued c = true → s.phase c = .input

/-- In the turn of another node those inputs are counted that the node is told of. -/
lemma Shows.Awaits.counted_serve (hw : Shows.Awaits Λ c fresh past s) (hΛ : Λ.Proper)
    (hc : Λ.network.Ordinary c) (h : t.Shows Λ (some c) s)
    (hturn : t.turn? = some turn) (hf : turn.failure = none)
    (hfirst : t.ready.first = some m) (hqueued : s.queued m = true)
    (hturned : Turned turn Λ (some c) (Λ.network.serve (some c) m s)) (hne : c ≠ m)
    (hp : p ∈ Λ.network.inputs c) (ho : Λ.network.optional p = false) :
    (Λ.network.serve (some c) m s).flow.counted p = true ↔
      Told fresh (past ++ [(t, turn)]) p := by
  obtain ⟨x, hx⟩ := h.exists_processor hΛ hqueued
  have hheeds := Network.heeds_serve (D := some c) hΛ.network hne hx
  have hagree := Network.agreeAt_withAsked (hc.asked_eq_false m s)
  have hhears := h.hears_iff hΛ hturn hf hfirst hqueued hturned hp
  have hdata : Hears (t, turn) p → t.hasData p = s.full p := by
    rintro ⟨m', hfeeder, -⟩
    rw [h.feeder?_eq] at hfeeder
    rw [h.hasData_eq hΛ hp, hfeeder]
    rfl
  have hnew : Λ.network.isNew (Λ.network.withAsked (some c) m s) p =
      (!s.counted p && s.full p) := by
    simp [Network.isNew, ho, Network.withAsked, Flow.full]
  rw [told_concat, ← hw.counted p hp ho, hheeds.counted p hp, ← hagree.counted p hp, hnew]
  cases s.counted p with
  | true => simp
  | false =>
      simp only [Bool.not_false, Bool.true_and, Bool.false_or, Bool.and_eq_true,
        decide_eq_true_eq, Bool.false_eq_true, false_or, ← hhears]
      exact and_congr_right fun hh => by rw [hdata hh]

/-- The turn of another node, which does not fail. -/
lemma Shows.Awaits.step (hw : Shows.Awaits Λ c fresh past s) (hΛ : Λ.Proper)
    (hc : Λ.network.Ordinary c) (h : t.Shows Λ (some c) s)
    (hturn : t.turn? = some turn) (hf : turn.failure = none)
    (hfirst : t.ready.first = some m) (hqueued : s.queued m = true)
    (hturned : Turned turn Λ (some c) (Λ.network.serve (some c) m s)) (hne : c ≠ m) :
    Shows.Awaits Λ c fresh (past ++ [(t, turn)])
      (Λ.network.serve (some c) m s).flow := by
  obtain ⟨x, hx⟩ := h.exists_processor hΛ hqueued
  have hheeds := Network.heeds_serve (D := some c) hΛ.network hne hx
  have hhears := fun {p} (hp : p ∈ Λ.network.inputs c) =>
    h.hears_iff hΛ hturn hf hfirst hqueued hturned hp
  have hagree := Network.agreeAt_withAsked (hc.asked_eq_false m s)
  have htallied := hw.tallied.serve hΛ.network (D := some c) m
  have hexact := hw.exact.serve hΛ.network (D := some c) m
  have hcounted : ∀ p ∈ Λ.network.inputs c, Λ.network.optional p = false →
      ((Λ.network.serve (some c) m s).flow.counted p = true ↔
        Told fresh (past ++ [(t, turn)]) p) := fun p hp ho =>
    hw.counted_serve hΛ hc h hturn hf hfirst hqueued hturned hne hp ho
  refine ⟨htallied, hexact, hcounted, ?_, fun hq => ?_⟩
  · by_cases hheard : ∃ p ∈ Λ.network.inputs c, p ∈ Λ.network.notices m s
    · obtain ⟨p, hp, hnotice⟩ := hheard
      rw [(hheeds.heard ⟨p, hp, hnotice⟩).1, and_iff_right hc.pos,
        hexact.complete_iff htallied hc]
      constructor
      · exact fun hall => ⟨⟨_, by simp, p, hp, (hhears hp).mpr hnotice⟩,
          fun q hq hr => (hcounted q hq (by simpa using hr)).mp (hall q hq (by simpa using hr))⟩
      · exact fun hrecalls q hq ho => (hcounted q hq ho).mpr (hrecalls.told q hq (by simp [ho]))
    · push Not at hheard
      have hdeaf : ∀ p ∈ Λ.network.inputs c, ¬ Hears (t, turn) p :=
        fun p hp hh => hheard p hp ((hhears hp).mp hh)
      rw [(hheeds.silent hheard).queued, ← hagree.queued, hw.waits,
        recalls_concat_of_deaf hdeaf]
  · by_cases hheard : ∃ p ∈ Λ.network.inputs c, p ∈ Λ.network.notices m s
    · exact (hheeds.heard hheard).2 hq
    · push Not at hheard
      have hsilent := hagree.symm.trans (hheeds.silent hheard)
      rw [hsilent.phase]
      exact hw.phase (hsilent.queued ▸ hq)

/-! ### Pulls -/

/-- A pulled node that checks its inputs counts the fresh ones and does not wait. -/
lemma Shows.Awaits.start (hΛ : Λ.Proper) (hc : Λ.network.Ordinary c)
    (h : t.Shows Λ (some c) s) (hs : Λ.network.Tallied s) (hφ : s.phase c = .checkInput)
    (hqueued : s.queued c = true) (hfirst : t.ready.first = some c)
    (hturned : Turned turn Λ (some c) (Λ.network.serve (some c) c s)) :
    turn.callback = none ∧ turn.failure = none ∧
      Shows.Awaits Λ c (Λ.network.isUntouched s.slot) [(t, turn)]
        (Λ.network.serve (some c) c s).flow := by
  obtain ⟨x, hx⟩ := h.exists_processor hΛ hqueued
  have hφ' : (s.dequeue c).countTurn.phase c = .checkInput := hφ
  -- the flow after the inputs were checked, and before the outputs are
  obtain ⟨u, hu⟩ : ∃ u, Λ.network.checkIn (some c) c (s.dequeue c).countTurn = u := ⟨_, rfl⟩
  have hserve : Λ.network.serve (some c) c s = ⟨Λ.network.checkOut c u, none, none⟩ := by
    rw [Network.serve, hx, ← hu]
    simp only [Network.serveNode, hφ', Network.demandsNothing_of_pos hc.pos,
      Bool.false_eq_true, if_false]
  have htallied := hs.serve hΛ.network (D := some c) c
  rw [hserve] at htallied
  have hagree := Network.agreeAt_checkOut_self hΛ.network c u
  rw [Network.checkIn_eq] at hu
  have hfresh : ∀ p ∈ Λ.network.inputs c, u.counted p = Λ.network.isUntouched s.slot p :=
    fun p hp => by rw [← hu]; exact if_pos hp
  have hexact : Λ.network.Exact c u := by
    rw [Network.Exact, List.countP_congr fun p hp => by rw [hfresh p hp], ← hu]
    exact Function.update_self ..
  have hleft : (Λ.network.checkOut c u).queued c = false := by
    rw [hagree.queued, ← hu]
    simp [Flow.countTurn, Flow.dequeue, Network.asksIn, Network.asks, hc.sync]
  -- a node is not told by itself
  have hdeaf : ∀ p ∈ Λ.network.inputs c, ¬ Hears (t, turn) p := by
    rintro p hp ⟨m, hfeeder, hannounces⟩
    obtain rfl : c = m := Option.some.inj (hfirst.symm.trans hannounces.first_eq)
    exact hΛ.network.irrefl hp ((h.feeder?_eq p).symm.trans hfeeder)
  refine ⟨by rw [hturned.callback, hserve], by rw [hturned.failure, hserve], ?_⟩
  rw [hserve]
  refine ⟨htallied, hexact.checkOut hΛ.network c, fun p hp ho => ?_, ?_, fun hq => ?_⟩
  · rw [hagree.counted p hp, hfresh p hp]
    refine ⟨Or.inl, fun htold => htold.resolve_right ?_⟩
    rintro ⟨y, hy, hhears, -⟩
    obtain rfl := List.mem_singleton.mp hy
    exact hdeaf p hp hhears
  · rw [hleft, ← List.nil_append [(t, turn)], recalls_concat_of_deaf hdeaf]
    exact iff_of_false Bool.false_ne_true not_recalls_nil
  · exact absurd (hleft.symm.trans hq) Bool.false_ne_true

/-- When nobody waits any more the pulled node was not told of all it requires. -/
lemma Shows.Awaits.not_recalls (hw : Shows.Awaits Λ c fresh past s)
    (h : t.Shows Λ (some c) s) (hturn : t.turn? = none) :
    ¬ Recalls (Λ.network.inputs c) (fun p => !Λ.network.optional p) fresh past := by
  rw [← hw.waits, h.turn?_eq_none.mp hturn c]
  exact Bool.false_ne_true

/-- While a pulled node waits to be told, it is called in the rest of its activation
exactly if it is told, provided that no other node fails. -/
theorem Shows.Awaits.called_iff (hw : Shows.Awaits Λ c fresh past s) (hΛ : Λ.Proper)
    (hc : Λ.network.Ordinary c) (h : t.Shows Λ (some c) s) {budget : Nat}
    {calls : List Callback}
    (hres : (Graph.settle budget t calls).result = .ok () ∨
      ∃ e, (Graph.settle budget t calls).result = .error (.processFailed c e)) :
    (∃ x ∈ course budget t, ∃ r, x.2.callback = some ⟨c, .input, r⟩) ↔
      Recalls (Λ.network.inputs c) (fun p => !Λ.network.optional p) fresh
        (past ++ course budget t) := by
  induction budget generalizing t s past calls with
  | zero =>
      rcases hturn : t.turn? with _ | turn
      · simp [course_of_none hturn, hw.not_recalls h hturn]
      · rw [settle_zero hturn] at hres
        simp at hres
  | succ budget ih =>
      rcases hturn : t.turn? with _ | turn
      · simp [course_of_none hturn, hw.not_recalls h hturn]
      · obtain ⟨m, hfirst, hqueued, hturned⟩ := h.exists_turn_first hΛ hturn
        rw [course_succ hturn]
        rcases eq_or_ne c m with rfl | hne
        · -- the node is called, since it was told before
          obtain ⟨x, hx⟩ := h.exists_processor hΛ hqueued
          have hinput : s.phase c = Side.input.phase := hw.phase hqueued
          obtain ⟨r, hcall⟩ := Network.exists_callback (N := Λ.network) (D := some c) hx hinput
          exact iff_of_true ⟨_, List.mem_cons_self, r, hturned.callback.trans hcall⟩
            ((hw.waits.mp hqueued).append _)
        · rw [settle_succ hturn] at hres
          rcases hf : turn.failure with _ | e
          · rw [hf] at hres
            have hstep := hw.step hΛ hc h hturn hf hfirst hqueued hturned hne
            have hrest := ih hstep hturned.graph hres
            rw [List.append_assoc, List.singleton_append] at hrest
            rw [Option.isNone_none, if_pos rfl, ← hrest]
            simp only [List.mem_cons, exists_eq_or_imp]
            refine or_iff_right ?_
            rintro ⟨r, hcall⟩
            rw [hturned.callback] at hcall
            exact hne (Network.phase_of_callback hcall).1
          · -- another node fails
            exfalso
            rw [hf] at hres
            rw [hturned.failure] at hf
            rcases Network.failure_serve_cases hΛ.network hf with
              ⟨side, cause, rfl, -⟩ | ⟨rfl, -⟩
            · simp only [reduceCtorEq, Except.error.injEq, ActivationError.processFailed.injEq,
                false_or] at hres
              obtain ⟨e, rfl, -⟩ := hres
              exact hne rfl
            · simp at hres

/-- A pulled node is called exactly if it hears of one of its inputs and is told of all
that are required, provided that no other node fails. -/
theorem Shows.pull_calls_iff {g : Graph σ} {D : Option NodeId} {node : Node σ}
    (hΛ : Λ.Proper) (h : g.Shows Λ D s) (hs : Λ.network.Tallied s)
    (hidle : ∀ n, s.queued n = false) (hc : Λ.network.Ordinary c)
    (hn : g.nodes.get? c = some node) {budget : Nat}
    (hres : (g.activate budget .pull c).result = .ok () ∨
      ∃ e, (g.activate budget .pull c).result = .error (.processFailed c e)) :
    (∃ r, ⟨c, .input, r⟩ ∈ (g.activate budget .pull c).callbacks) ↔
      Recalls (Λ.network.inputs c) (fun p => !Λ.network.optional p)
        (Λ.network.isUntouched s.slot) (g.turns budget .pull c) := by
  have hstart := h.start hΛ (h.node hn) .pull
  have hqueued : (s.start .pull c).queued c = true := Function.update_self ..
  have hsettle : (Graph.settle budget (g.start .pull c) []).result =
      (g.activate budget .pull c).result := by
    simp only [Graph.activate, hn]
    rfl
  rw [← hsettle] at hres
  rw [callbacks_activate, turns_of_get? hn]
  rcases hturn : (g.start .pull c).turn? with _ | turn
  · rw [hstart.turn?_eq_none.mp hturn c] at hqueued
    cases hqueued
  · obtain ⟨m, hfirst, hm, hturned⟩ := hstart.exists_turn_first hΛ hturn
    obtain ⟨rfl, hφ⟩ := Flow.waits_start hidle hm
    obtain ⟨hcall, hf, hw⟩ := Shows.Awaits.start hΛ hc hstart
      (hs.start hidle .pull m) hφ hm hfirst hturned
    cases budget with
    | zero =>
        rw [settle_zero hturn] at hres
        simp at hres
    | succ budget =>
        rw [settle_succ hturn, hf] at hres
        have hrest := hw.called_iff hΛ hc hturned.graph hres
        rw [course_succ hturn, hf, Option.isNone_none, if_pos rfl, List.filterMap_cons, hcall]
        simp only [List.mem_filterMap]
        rw [exists_comm]
        simp only [exists_and_left]
        exact hrest

/-- An activation that ends in a failed call leaves the slots as the last turn does. -/
lemma slots_activate_of_failed {g : Graph σ} {node : Node σ} {budget : Nat} {mode : Mode}
    {e : ProcessError} (hn : g.nodes.get? d = some node)
    (hfail : (g.activate budget mode d).result = .error (.processFailed c e))
    (hlast : (g.turns budget mode d).getLast? = some (t, turn)) :
    (g.activate budget mode d).graph.slots = turn.graph.slots := by
  obtain ⟨u, hstops, -, -, hu⟩ := Graph.activate_stops hn budget mode
  rw [hfail] at hstops
  rw [Graph.turns_of_get? hn] at hlast
  cases hstops with
  | failed hlast' _ =>
      obtain ⟨-, rfl⟩ := Prod.mk.inj (Option.some.inj (hlast.symm.trans hlast'))
      rw [hu]

/-- The pull of a node without linked outputs, none of whose inputs is drained, calls
nobody. -/
lemma Shows.pull_quiet {g : Graph σ} {D : Option NodeId} {node : Node σ} (hΛ : Λ.Proper)
    (h : g.Shows Λ D s) (hidle : ∀ n, s.queued n = false)
    (hn : g.nodes.get? c = some node) (hd : Λ.network.demandsNothing c = false)
    (hfed : ∀ p ∈ Λ.network.inputs c, (Λ.network.feeder p).isSome = true →
      (s.slot p).status ≠ .needData)
    (hend : Λ.network.targets c = []) (budget : Nat) :
    (g.activate (budget + 1) .pull c).result = .ok () ∧
      (g.activate (budget + 1) .pull c).callbacks = [] := by
  have hstart := h.start hΛ (h.node hn) .pull
  have hqueued : (s.start .pull c).queued c = true := Function.update_self ..
  rcases hturn : (g.start .pull c).turn? with _ | turn
  · rw [hstart.turn?_eq_none.mp hturn c] at hqueued
    cases hqueued
  · obtain ⟨m, hm, hturned⟩ := hstart.turn? hΛ hturn
    obtain ⟨rfl, hφ⟩ := Flow.waits_start hidle hm
    obtain ⟨x, hx⟩ := hstart.exists_processor hΛ hm
    have hφ' : ((s.start .pull m).dequeue m).countTurn.phase m = .checkInput := hφ
    have hserve : Λ.network.serve (some m) m (s.start .pull m) =
        ⟨Λ.network.checkIn (some m) m ((s.start .pull m).dequeue m).countTurn, none, none⟩ := by
      rw [Network.serve, hx]
      simp only [Network.serveNode, hφ', hd, Bool.false_eq_true, if_false, Network.checkOut,
        hend, List.foldl_nil]
    -- nobody is asked, so nobody waits after this turn
    have hasks : ∀ n, Λ.network.asksIn (some m) s.slot m n = false := by
      intro n
      by_contra hasks
      obtain ⟨p, hp, hf, hneed, -⟩ := Network.asksIn_eq_true.mp (Bool.not_eq_false _ ▸ hasks)
      exact hfed p hp (by simp [hf]) hneed
    have hnone : turn.graph.turn? = none := by
      have hgraph := hturned.graph
      rw [hserve] at hgraph
      refine hgraph.turn?_eq_none.mpr fun n => ?_
      rw [Network.checkIn_eq]
      rcases eq_or_ne n m with rfl | hne
      · simp [Flow.countTurn, Flow.dequeue, Flow.start, Flow.enqueue, Flow.setPhase, hasks]
      · simp [Flow.countTurn, Flow.dequeue, Flow.start, Flow.enqueue, Flow.setPhase, hasks,
          hne, hidle]
    have hcall : turn.callback = none := by rw [hturned.callback, hserve]
    have hf : turn.failure = none := by rw [hturned.failure, hserve]
    simp only [Graph.activate, hn, settle_succ hturn, hf, hcall, settle_of_none hnone]
    exact ⟨rfl, rfl⟩

end Graph

/-! ### Every graph of a client -/

/-- Suppose that the pull of a node failed in the last turn, because the node's own
call for its inputs failed, and that this call left all slots alone. When the node is
pulled again, and no other node fails, it is called again exactly if one of its
inputs is announced and all its required inputs are fresh or are announced while they
hold data; this is for nodes that are not asynchronous and require what is not
optional. If none of its inputs is drained, and its outputs are not linked, then
nobody is called, and the second pull ends well. -/
theorem Action.retry_calls_iff [Processor σ] (actions : List (Action σ)) {c : NodeId}
    {budget : Nat} {e : ProcessError} {t : Graph σ} {turn : Turn σ}
    (hfail : ((Action.graph actions).activate budget .pull c).result =
      .error (.processFailed c e))
    (hlast : ((Action.graph actions).turns budget .pull c).getLast? = some (t, turn))
    (hcall : turn.callback = some ⟨c, .input, .error e⟩)
    (hslots : turn.graph.slots = t.slots) (budget' : Nat) :
    let g := Action.graph (actions ++ [.activate budget .pull c])
    (∀ node, t.nodes.get? c = some node → node.flags.async = false →
      node.requiredIn = (t.inputsOf c).countP t.isRequired →
      ((g.activate budget' .pull c).result = .ok () ∨
        ∃ e', (g.activate budget' .pull c).result = .error (.processFailed c e')) →
      ((∃ r, ⟨c, .input, r⟩ ∈ (g.activate budget' .pull c).callbacks) ↔
        Graph.Recalls (t.inputsOf c) t.isRequired t.isFresh (g.turns budget' .pull c))) ∧
    ((∀ p ∈ t.inputsOf c, (t.slotOf? p).any (·.needsData) = false) →
      (∀ q ∈ t.outputsOf c, t.peer? q = none) →
      (g.activate (budget' + 1) .pull c).result = .ok () ∧
        (g.activate (budget' + 1) .pull c).callbacks = []) := by
  intro g
  have htidy := Action.tidy_graph actions
  have htallied := Action.tallied_graph actions
  have hgtidy : g.Tidy := Action.tidy_graph _
  have hgtallied : g.Tallied := Action.tallied_graph _
  have hg : g = ((Action.graph actions).activate budget .pull c).graph :=
    Action.graph_concat _ _
  generalize Action.graph actions = g₀ at *
  -- the graphs from which the failing turn and the second pull start show one layout
  obtain ⟨node₀, hn₀⟩ : ∃ node, g₀.nodes.get? c = some node := by
    rcases hn : g₀.nodes.get? c with _ | node
    · simp [Graph.activate, hn] at hfail
    · exact ⟨node, rfl⟩
  have hΛ := htidy.layout
  obtain ⟨_, -, hshown⟩ := htidy.shows.activate hΛ (htidy.shows.node hn₀) budget .pull
  rw [← hg] at hshown
  obtain ⟨ht, hturn⟩ := Graph.takesTurns_of_mem_turns (List.mem_of_getLast? hlast)
  obtain ⟨s₀, hs₀, hst₀⟩ := htallied.exists_start htidy .pull c
  obtain ⟨s, hs, hst⟩ := ht.shows hΛ hs₀ hst₀
  have hslots' : g.slots = t.slots := calc
    g.slots = ((g₀.activate budget .pull c).graph).slots := by rw [hg]
    _ = turn.graph.slots := Graph.slots_activate_of_failed hn₀ hfail hlast
    _ = t.slots := hslots
  have hslotOf : ∀ p, g.slotOf? p = t.slotOf? p := fun p => by
    rw [Graph.slotOf?, Graph.slotOf?, Graph.slotId?_eq_link?, Graph.slotId?_eq_link?,
      hshown.layout, hs.layout, hslots']
  have hgshows := hgtidy.shows
  rw [hshown.layout] at hgshows
  have hgflow : g₀.layout.network.Tallied g.flow := by
    have := hgtallied.network hgtidy
    rwa [hshown.layout] at this
  obtain ⟨node, hn, -⟩ := hgshows.exists_node (htidy.shows.node hn₀)
  -- the node requires some of its inputs, since it was called
  have hpos : 0 < g₀.layout.network.required c := by
    obtain ⟨m, hqueued, hturned⟩ := hs.turn? hΛ hturn
    rw [hturned.callback] at hcall
    obtain ⟨rfl, hφ⟩ := Network.phase_of_callback hcall
    exact (hst.complete hqueued hφ).1
  have hslot : ∀ {p}, p ∈ g₀.layout.network.inputs c →
      t.slotOf? p = (g₀.layout.network.linked? p).map g.flow.slot := fun {p} hp => by
    rw [← hslotOf, hgshows.slotOf?_input hΛ hp]
  refine ⟨fun node' hn' hsync hrequired hres => ?_, fun hfed hend => ?_⟩
  · have hreq : ∀ p ∈ g₀.layout.network.inputs c,
        (!g₀.layout.network.optional p) = t.isRequired p := fun p hp => by
      rw [Graph.isRequired, hs.isRequired_eq hΛ hp]
    have hordinary : g₀.layout.network.Ordinary c := {
      sync := (hs.async_eq hn').trans hsync
      required := by
        rw [hs.required_eq hn', hrequired, hs.inputsOf_eq]
        exact List.countP_congr fun p hp => by rw [hreq p hp]
      pos := hpos }
    have hfresh : ∀ p ∈ g₀.layout.network.inputs c, g₀.layout.network.optional p = false →
        g₀.layout.network.isUntouched g.flow.slot p = t.isFresh p := fun p hp ho => by
      rw [Graph.isFresh, hslot hp, Network.linked?, Network.isUntouched, ho]
      cases (g₀.layout.network.feeder p).isSome <;> simp
    rw [hgshows.pull_calls_iff hΛ hgflow hgtidy.queued_eq_false hordinary hn hres,
      hs.inputsOf_eq]
    exact ⟨.congr hreq fun p hp hr => hfresh p hp (by simpa using hr),
      .congr (fun p hp => (hreq p hp).symm) fun p hp hr =>
        (hfresh p hp (by simpa using (hreq p hp).trans hr)).symm⟩
  · refine hgshows.pull_quiet hΛ hgtidy.queued_eq_false hn
      (Network.demandsNothing_of_pos hpos) (fun p hp hf hneed => ?_) ?_ budget'
    · have hdrained := hfed p (by rwa [hs.inputsOf_eq])
      rw [hslot hp, Network.linked?, if_pos hf] at hdrained
      simp [Slot.needsData, hneed] at hdrained
    · refine List.eq_nil_iff_forall_not_mem.mpr fun p hp => ?_
      obtain ⟨q, hq, hpeer⟩ := Layout.mem_targets.mp hp
      rw [← hs.outputsOf_eq] at hq
      rw [← hs.peer?_eq, hend q hq] at hpeer
      cases hpeer

/-! ### A processor with faults -/

/-- A processor whose calls for inputs fail as long as it has faults, and then take
what the inputs hold. -/
structure Faulty where
  faults : Nat
deriving DecidableEq

instance : Processor Faulty where
  input f v := match f.faults with
    | 0 => ⟨.ok .needInput, v.mapInputs (·.take.2), f⟩
    | faults + 1 => .unchanged (.error (.failed "fault")) v ⟨faults⟩
  output f v := .unchanged (.ok .needInput) v f

namespace Action

/-- A node with one fault and two inputs: the required one is linked to a source, and
nothing was said about it; the other one asks a node that has nothing to offer. -/
def urged : List (Action (Adapter Faulty)) :=
  [.addNode (.source (.ofBuffers 4)), .addNode (.custom ⟨0⟩), .addNode (.custom ⟨1⟩),
    .addPort ⟨0⟩ .output {}, .addPort ⟨1⟩ .output {},
    .addPort ⟨2⟩ .input {}, .addPort ⟨2⟩ .input ⟨true⟩,
    .link ⟨0⟩ ⟨2⟩, .link ⟨1⟩ ⟨3⟩, .writeSlot ⟨3⟩ ⟨.needData, none⟩]

/-- The second pull of this node hears of its input, and calls it again. -/
theorem retry_calls_iff_urged :
    ∃ x, ((graph urged).turns 9 .pull ⟨2⟩).getLast? = some x ∧
      Graph.Recalls (x.1.inputsOf ⟨2⟩) x.1.isRequired x.1.isFresh
        ((graph (urged ++ [.activate 9 .pull ⟨2⟩])).turns 9 .pull ⟨2⟩) := by
  have hrun : ((graph urged).turns 9 .pull ⟨2⟩).getLast?.any (fun x =>
      (x.2.callback.any fun r => r.node = ⟨2⟩ ∧ r.side = .input ∧
        r.result = .error (.failed "fault")) &&
      decide (x.2.graph.slots = x.1.slots) &&
      (x.1.nodes.get? ⟨2⟩).any fun node => node.flags.async = false ∧
        node.requiredIn = (x.1.inputsOf ⟨2⟩).countP x.1.isRequired) = true := by
    decide +kernel
  have hagain : ∃ r ∈ ((graph (urged ++ [.activate 9 .pull ⟨2⟩])).activate 9 .pull
      ⟨2⟩).callbacks, r.node = ⟨2⟩ ∧ r.side = .input := by
    decide +kernel
  obtain ⟨⟨t, turn⟩, hlast, hx⟩ := (Option.any_eq_true _ _).mp hrun
  simp only [Bool.and_eq_true, decide_eq_true_eq, Option.any_eq_true] at hx
  obtain ⟨⟨⟨⟨_, _, _⟩, hcall, rfl, rfl, rfl⟩, hslots⟩, node, hn, hsync, hrequired⟩ := hx
  obtain ⟨⟨_, _, r⟩, hr, rfl, rfl⟩ := hagain
  refine ⟨_, hlast, ((retry_calls_iff urged (by decide +kernel) hlast hcall hslots 9).1
    node hn hsync hrequired (Or.inl (by decide +kernel))).mp ⟨r, hr⟩⟩

/-- A source that feeds a node with one fault, which asks for data. -/
def abandoned : List (Action (Adapter Faulty)) :=
  [.addNode (.source (.ofBuffers 4)), .addNode (.custom ⟨1⟩),
    .addPort ⟨0⟩ .output {}, .addPort ⟨1⟩ .input {}, .link ⟨0⟩ ⟨1⟩,
    .writeSlot ⟨1⟩ ⟨.needData, none⟩]

/-- The second pull of this node ends well, and nobody is called in it, although the
first one failed only in the call of the node, which left all slots alone. -/
theorem retry_abandoned :
    ((graph abandoned).pull ⟨1⟩).result = .error (.processFailed ⟨1⟩ (.failed "fault")) ∧
    (((graph abandoned).turns Graph.turnLimit .pull ⟨1⟩).getLast?.any fun x =>
      (x.2.callback.any fun r => r.node = ⟨1⟩ ∧ r.side = .input) &&
        decide (x.2.graph.slots = x.1.slots)) = true ∧
    ((graph (abandoned ++ [.activate Graph.turnLimit .pull ⟨1⟩])).pull ⟨1⟩).result =
      .ok () ∧
    ((graph (abandoned ++ [.activate Graph.turnLimit .pull ⟨1⟩])).pull
      ⟨1⟩).callbacks.length = 0 := by
  decide +kernel

end Action

end MediaGraph

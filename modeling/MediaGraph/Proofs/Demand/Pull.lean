/-
Pulls of sinks.

* `Network.Delivers`: a node makes output when it is asked: all its inputs hold
  data, or none does and all that feed it deliver;
* `Runs.pulled`: after any turns of a pull every node above the sink is at some
  stage, which tells its turns and calls so far;
* `Ends.pulled`: a pull of a sink ends, and how;
* `Demand.settled_of_delivers`, `Demand.delivers_of_settled`: when nobody waits any
  more, those made output that deliver;
* `Demand.served_iff`: and the sink was served if what feeds it delivers.
-/
import Mathlib.Algebra.Order.BigOperators.Group.Finset
import Mathlib.Order.WellFoundedSet
import MediaGraph.Proofs.Demand.Turns

namespace MediaGraph.Network

variable {τ : Type} {N : Network} {K n : NodeId} {T : Finset NodeId}
  {s t : Flow (Adapter τ)} {stage : NodeId → Stage}

/-! ### The start -/

/-- The stages at the start of a pull. -/
def firstStage (K : NodeId) : NodeId → Stage :=
  fun n => if n = K then .checking else .untouched

/-- At the start of a pull the sink is about to check its input. -/
lemma demand_start (hN : N.Proper) (hT : N.Above K T)
    (hqueued : ∀ n, s.queued n = false)
    (hdemanding : ∀ p ∈ N.inputs K,
      (s.slot p).status = .haveData ∨ (s.slot p).status = .needData)
    {snk : Sink} (hsnk : s.processor K = some (.sink snk)) :
    N.Demand K T s (firstStage K) (s.start .pull K) := by
  have hother : ∀ {m}, m ≠ K → firstStage K m = .untouched :=
    fun hm => if_neg hm
  have hself : firstStage K K = .checking := if_pos rfl
  constructor
  · intro m hm
    exact hother (by rintro rfl; exact hm hT.sink_mem)
  · exact Or.inl hself
  · intro m hm
    by_contra hmK
    simp [hother hmK] at hm
  · intro m
    rcases eq_or_ne m K with rfl | hm
    · rw [hself]
      exact Function.update_self ..
    · rw [hother hm]
      exact (Function.update_of_ne hm ..).trans (hqueued m)
  · intro m φ hφ
    rcases eq_or_ne m K with rfl | hm
    · rw [hself] at hφ
      cases hφ
      exact Function.update_self ..
    · rw [hother hm] at hφ
      cases hφ
  · intro c p x _ hp hx
    change Stage.Agree _ _ _ (s.slot p).status (s.counted p)
    have hxc : x ≠ c := by
      rintro rfl
      exact hN.irrefl hp hx
    rcases eq_or_ne c K with rfl | hc
    · rw [hself, hother hxc, Flow.full, Slot.hasData]
      rcases hdemanding p hp with hst | hst <;> rw [hst]
      · exact .full (Or.inl rfl) (by simp)
      · exact .requested (by simp)
    · have hx : x ≠ K := by
        rintro rfl
        exact hT.not_feeds ‹_› ⟨p, hp, hx⟩
      rw [hother hc, hother hx]
      exact .before (Or.inl rfl) (by simp [Flow.full, Slot.hasData])
  · intro c _ hc
    rw [firstStage] at hc
    split at hc <;> cases hc
  · intro c _ hc
    rw [firstStage] at hc
    split at hc <;> cases hc
  · intro c _ hcK hc
    rw [hother hcK] at hc
    simp [Stage.isShort] at hc
  · exact fun _ _ _ _ => rfl
  · exact ⟨snk, snk, hsnk, hsnk, by rw [hself]; rfl⟩

/-! ### The turns so far -/

/-- The stages tell the turns and the calls so far; and no call of a node comes
after the inputs of a node that it feeds were processed, directly or through
others. -/
structure Logged (N : Network) (K : NodeId) (T : Finset NodeId)
    (stage : NodeId → Stage) (k : Nat) (calls : List Callback) : Prop where
  turns : ∑ n ∈ T, (stage n).turns = k + 1
  sides : ∀ n, (stage n).sides = (if n = K then [.output] else []) ++
    (calls.filter (·.node = n)).map (·.side)
  order : calls.Pairwise fun call call' => call.side = .input →
    ¬ Relation.TransGen N.Feeds call'.node call.node

/-- Those above a node wait for it while it is on its way. -/
lemma Demand.waiting_of_transGen (hT : N.Above K T) (h : N.Demand K T s stage t)
    (hstage : stage n ≠ .untouched) (hsettled : ∀ b, stage n ≠ .settled b)
    {m : NodeId} (hm : m ∈ T) (hnm : Relation.TransGen N.Feeds n m) :
    stage m = .waiting := by
  induction hnm with
  | single hfeeds =>
      obtain ⟨p, hp, hf⟩ := hfeeds
      exact ((h.link hm hp hf).waiting hstage hsettled).1
  | tail _ hfeeds ih =>
      have hw := ih (hT.mem_of_feeds hfeeds hm)
      obtain ⟨p, hp, hf⟩ := hfeeds
      exact ((h.link hm hp hf).waiting (by simp [hw]) (by simp [hw])).1

/-- Before the first turn nothing is logged. -/
lemma logged_start (hT : N.Above K T) : N.Logged K T (firstStage K) 0 [] where
  turns := by
    rw [Finset.sum_eq_single_of_mem K hT.sink_mem fun m _ hm => by
      rw [firstStage, if_neg hm]; rfl]
    rw [firstStage, if_pos rfl]
    rfl
  sides m := by
    rw [firstStage]
    split <;> simp [Stage.sides]
  order := .nil

/-- One more turn is logged. -/
lemma Logged.advance (hT : N.Above K T) (h : N.Demand K T s stage t)
    {stage' : NodeId → Stage} {v : FlowTurn (Adapter τ)} {k : Nat}
    {calls : List Callback} (hlog : N.Logged K T stage k calls) (hn : n ∈ T)
    (hphase : (stage n).phase?.isSome = true)
    (hadv : Demand.Advances stage stage' n v) :
    N.Logged K T stage' (k + 1) (calls ++ v.callback.toList) where
  turns := by
    have hrest : ∑ m ∈ T.erase n, (stage' m).turns =
        ∑ m ∈ T.erase n, (stage m).turns :=
      Finset.sum_congr rfl fun m hm => (hadv.others m (Finset.ne_of_mem_erase hm)).1
    rw [← Finset.add_sum_erase T _ hn, hrest, hadv.turns, ← hlog.turns,
      ← Finset.add_sum_erase T _ hn]
    omega
  sides m := by
    rw [List.filter_append, List.map_append, ← List.append_assoc, ← hlog.sides]
    rcases eq_or_ne m n with rfl | hm
    · rw [hadv.sides, List.filter_eq_self.mpr]
      simpa using hadv.node
    · rw [(hadv.others m hm).2, List.filter_eq_nil_iff.mpr]
      · simp
      · intro call hcall
        simpa [hadv.node call hcall] using hm.symm
  order := by
    rw [List.pairwise_append]
    refine ⟨hlog.order, ?_, fun call hcall call' hcall' hside hup => ?_⟩
    · rcases v.callback with _ | call
      · exact .nil
      · exact List.pairwise_singleton _ _
    · -- the node of the earlier call waits for the node whose turn it is
      rw [hadv.node call' hcall'] at hup
      have hmem : Side.input ∈ (stage call.node).sides := by
        rw [hlog.sides]
        refine List.mem_append_right _ (List.mem_map.mpr ⟨call, ?_, hside⟩)
        simpa using hcall
      have hwait : stage call.node = .waiting := by
        refine h.waiting_of_transGen hT ?_ ?_ ?_ hup
        · intro he
          simp [he, Stage.phase?] at hphase
        · intro b he
          simp [he, Stage.phase?] at hphase
        · by_contra hout
          simp [h.outside _ hout, Stage.sides] at hmem
      simp [hwait, Stage.sides] at hmem

/-- What is true of a pull of the sink `K` after `k` turns with these calls. -/
structure Pulled (d : Description) (N : Network) (K : NodeId)
    (T : Finset NodeId) (s : Flow (Adapter τ)) (k : Nat) (calls : List Callback)
    (stage : NodeId → Stage) (t : Flow (Adapter τ)) : Prop where
  sound : d.Sound N t
  demand : N.Demand K T s stage t
  logged : N.Logged K T stage k calls
  stats : t.stats = {
    dispatches := k
    inputCalls := calls.countP (·.side = .input)
    outputCalls := calls.countP (·.side = .output) }

/-- A flow from which the sink `K` can be pulled. -/
structure Pullable (d : Description) (N : Network) (K : NodeId)
    (T : Finset NodeId) (s : Flow (Adapter τ)) : Prop where
  realized : d.Realized N
  above : N.Above K T
  sound : d.Sound N s
  queued : ∀ n, s.queued n = false
  sink : d.isSink K = true

variable {d : Description} {k : Nat} {calls : List Callback}

/-- At first nothing was logged. -/
lemma Pullable.start (h : Pullable d N K T s) :
    Pulled d N K T s 0 [] (firstStage K) (s.start .pull K) where
  sound := h.sound.congr rfl rfl
  demand := by
    obtain ⟨spec, hspec, hk⟩ := Description.isSink_iff.mp h.sink
    obtain ⟨x, hx, hkx⟩ := h.sound.staffed.kind hspec
    obtain ⟨snk, rfl⟩ : ∃ snk, x = .sink snk := by
      cases x <;> simp [Adapter.kind?, hk] at hkx ⊢
    exact demand_start h.realized.proper h.above h.queued (fun p hp =>
      h.sound.demanding h.sink hp (h.above.linked K h.above.sink_mem p hp)) hx
  logged := logged_start h.above
  stats := rfl

/-- One more turn. -/
lemma Pulled.turn [Processor τ] (hs : Pullable d N K T s)
    (h : Pulled d N K T s k calls stage t) (hn : t.queued n = true) :
    (N.serve (some K) n t).failure = none ∧ ∃ stage',
      Pulled d N K T s (k + 1)
        (calls ++ (N.serve (some K) n t).callback.toList) stage'
        (N.serve (some K) n t).flow := by
  obtain ⟨stage', hdemand, hadv⟩ := h.demand.turn hs.realized hs.above h.sound hn
  have hphase : (stage n).phase?.isSome = true := by rw [← h.demand.queued, hn]
  obtain ⟨φ, hφ⟩ := Option.isSome_iff_exists.mp hphase
  have hnT := h.demand.mem_of_phase hφ
  obtain ⟨x, hx, hsuits⟩ :=
    h.demand.exists_processor hs.realized hs.above h.sound.staffed hnT
  have hserves := serves hs.realized.proper (some K) hx hsuits
  refine ⟨hadv.failure, stage', h.sound.serve hs.realized (some K) n, hdemand,
    h.logged.advance hs.above h.demand hnT hphase hadv, ?_⟩
  rw [hserves.stats hs.realized.proper, h.stats, List.countP_append,
    List.countP_append]

/-- After any turns of a pull every node above the sink is at some stage. -/
theorem Runs.pulled [Processor τ] (hs : Pullable d N K T s)
    (h : N.Runs (some K) (s.start .pull K) k calls t) :
    ∃ stage, Pulled d N K T s k calls stage t := by
  induction h with
  | refl => exact ⟨_, hs.start⟩
  | turn _ hn hserve ih =>
      obtain ⟨stage, hstage⟩ := ih
      obtain ⟨-, stage', hnext⟩ := hstage.turn hs hn
      rw [hserve] at hnext
      exact ⟨stage', hnext⟩

/-! ### The number of turns -/

/-- The turns of a node above the sink in a pull that makes it process input;
the sink counts as if it had been asked by the caller. -/
def quota (N : Network) (K n : NodeId) : Nat :=
  if n = K then 3 else if N.inputs n = [] then 2 else 4

/-- No node takes more turns than its quota, and none that waits for one took
all of them. -/
lemma Demand.turns_le (h : N.Demand K T s stage t) (hn : n ∈ T) :
    (stage n).turns ≤ N.quota K n ∧
      ((stage n).phase?.isSome = true → (stage n).turns < N.quota K n) := by
  rw [quota]
  split
  · rename_i hK
    rw [hK]
    rcases h.sink with hst | hst | hst | hst <;> rw [hst] <;>
      simp [Stage.turns, Stage.phase?]
  · rename_i hK
    have hserved : stage n ≠ .served := fun hst => hK (h.served n hst)
    split
    · rename_i hin
      have hshort : ¬ (stage n).isShort := by
        intro hst
        obtain ⟨p, hp, -⟩ := h.short n hn hK hst
        simp [hin] at hp
      rcases hst : stage n with _ | _ | _ | _ | _ | b | b | _ <;>
        simp_all [Stage.turns, Stage.phase?, Stage.isShort]
    · rcases hst : stage n with _ | _ | _ | _ | _ | b | b | _ <;>
        simp_all [Stage.turns, Stage.phase?]
      all_goals cases b <;> simp

/-- Somebody waits only as long as the quotas are not used up. -/
lemma Pulled.lt_sum (h : Pulled d N K T s k calls stage t)
    (hn : t.queued n = true) : k + 1 < ∑ m ∈ T, N.quota K m := by
  have hphase : (stage n).phase?.isSome = true := by rw [← h.demand.queued, hn]
  obtain ⟨φ, hφ⟩ := Option.isSome_iff_exists.mp hphase
  rw [← h.logged.turns]
  exact Finset.sum_lt_sum (fun m hm => (h.demand.turns_le hm).1)
    ⟨n, h.demand.mem_of_phase hφ,
      (h.demand.turns_le (h.demand.mem_of_phase hφ)).2 hphase⟩

/-- As many turns as the quotas allow are enough for a pull of a sink. -/
lemma Ends.ne_tooManyTurns [Processor τ] (hs : Pullable d N K T s) {budget : Nat}
    (hbudget : ∑ m ∈ T, N.quota K m ≤ budget + 1)
    {r : Except ActivationError Unit}
    (h : N.Ends (some K) (s.start .pull K) budget r calls t) :
    r ≠ .error .tooManyTurns := by
  cases h with
  | settled => simp
  | @failed _ _ _ _ m _ e _ _ _ hserve =>
      rintro he
      have hnot := N.failure_serve_ne_tooManyTurns (some K) m ‹_›
      rw [hserve] at hnot
      exact hnot (congrArg some (Except.error.inj he))
  | exhausted hr hn =>
      obtain ⟨stage, hstage⟩ := hr.pulled hs
      have := hstage.lt_sum hn
      omega

/-- A pull of a sink that ends within its turns ends well, and nobody waits any
more. -/
theorem Ends.pulled [Processor τ] (hs : Pullable d N K T s) {budget : Nat}
    {r : Except ActivationError Unit} (hr : r ≠ .error .tooManyTurns)
    (h : N.Ends (some K) (s.start .pull K) budget r calls t) :
    r = .ok () ∧ (∀ n, t.queued n = false) ∧
      ∃ k stage, Pulled d N K T s k calls stage t := by
  cases h with
  | settled hruns _ hnone =>
      obtain ⟨stage, hstage⟩ := hruns.pulled hs
      exact ⟨rfl, hnone, _, stage, hstage⟩
  | failed hruns _ hn hserve =>
      obtain ⟨stage, hstage⟩ := hruns.pulled hs
      have hnot := (hstage.turn hs hn).1
      rw [hserve] at hnot
      cases hnot
  | exhausted => exact absurd rfl hr

/-! ### The end -/

/-- A node makes output when it is asked: all its inputs hold data, or none does
and all that feed it deliver. -/
inductive Delivers (N : Network) (full : PortId → Bool) : NodeId → Prop
  | full {n : NodeId} : (∀ p ∈ N.inputs n, full p = true) → Delivers N full n
  | fed {n : NodeId} : (∀ p ∈ N.inputs n, full p = false) →
      (∀ p ∈ N.inputs n, ∀ x, N.feeder p = some x → Delivers N full x) →
      Delivers N full n

namespace Demand

/-- A node that waits when nobody has a turn any more waits for an input that
holds data or is fed by a node that waits. -/
lemma exists_pending (hT : N.Above K T) (h : N.Demand K T s stage t)
    (hnone : ∀ n, t.queued n = false) (hn : n ∈ T) (hwait : stage n = .waiting) :
    ∃ p ∈ N.inputs n, ∃ x, N.feeder p = some x ∧
      (s.full p = true ∨ stage x = .waiting) := by
  obtain ⟨p, hp, hcounted⟩ := h.pending n hn hwait
  obtain ⟨x, hx⟩ := Option.isSome_iff_exists.mp (hT.linked n hn p hp)
  refine ⟨p, hp, x, hx, ?_⟩
  have hlink := h.link hn hp hx
  have hqueued := h.queued x
  rw [hnone x] at hqueued
  rw [hwait, hcounted] at hlink
  generalize stage x = x' at hlink hqueued
  generalize (t.slot p).status = st at hlink
  cases hlink with
  | before hc | spared hc | consumed hc => simp at hc
  | full _ hfull => exact Or.inl hfull
  | expected _ hopen =>
      rcases hopen with rfl | rfl | rfl | rfl
      all_goals simp [Stage.phase?] at hqueued ⊢
  | offered => simp [Stage.phase?] at hqueued

/-- When nobody waits for a turn any more, a node that was asked made output or
waits. -/
lemma settled_or_waiting (h : N.Demand K T s stage t)
    (hnone : ∀ n, t.queued n = false) (hK : n ≠ K) (hstage : stage n ≠ .untouched) :
    (∃ b, stage n = .settled b) ∨ stage n = .waiting := by
  have hqueued := h.queued n
  rw [hnone n] at hqueued
  cases hst : stage n with
  | untouched => exact absurd hst hstage
  | waiting => exact Or.inr rfl
  | settled b => exact Or.inl ⟨b, rfl⟩
  | served => exact absurd (h.served n hst) hK
  | asked | checking | loaded | announcing =>
      simp [hst, Stage.phase?] at hqueued

/-- A node that delivers made output if it was asked. -/
lemma settled_of_delivers (hT : N.Above K T) (h : N.Demand K T s stage t)
    (hnone : ∀ n, t.queued n = false) (hn : n ∈ T) (hK : n ≠ K)
    (hstage : stage n ≠ .untouched) (hd : N.Delivers s.full n) :
    ∃ b, stage n = .settled b := by
  induction hd with
  | full hfull =>
      refine (h.settled_or_waiting hnone hK hstage).resolve_right fun hw => ?_
      obtain ⟨p, hp, hp'⟩ := h.short _ hn hK (by simp [hw, Stage.isShort])
      simp [hfull p hp] at hp'
  | fed hfull _ ih =>
      refine (h.settled_or_waiting hnone hK hstage).resolve_right fun hw => ?_
      obtain ⟨p, hp, x, hx, hfp | hwx⟩ := h.exists_pending hT hnone hn hw
      · simp [hfull p hp] at hfp
      · have hxT := hT.mem_of_feeds ⟨p, hp, hx⟩ hn
        have hxK : x ≠ K := by
          rintro rfl
          exact hT.not_feeds hn ⟨p, hp, hx⟩
        obtain ⟨b, hb⟩ := ih p hp x hx hxT hxK (by simp [hwx])
        simp [hwx] at hb

end Demand

/-- What holds of a node above the sink when it holds of all that feed it,
holds of all of them. -/
lemma Above.induction (hT : N.Above K T) {P : NodeId → Prop}
    (h : ∀ n ∈ T, (∀ x, N.Feeds x n → P x) → P n) (hn : n ∈ T) : P n := by
  have : IsStrictOrder NodeId (Relation.TransGen N.Feeds) :=
    { irrefl := hT.acyclic, trans := fun _ _ _ => .trans }
  refine (T.finite_toSet.wellFoundedOn (r := Relation.TransGen N.Feeds)).induction
    (by simpa using hn) fun n hn ih => h n hn fun x hx => ?_
  exact ih x (hT.mem_of_feeds hx hn) (.single hx)

namespace Demand

/-- A node made output only if it delivers. -/
lemma delivers_of_settled (hT : N.Above K T) (h : N.Demand K T s stage t)
    (hn : n ∈ T) : ∀ b, stage n = .settled b → N.Delivers s.full n := by
  refine hT.induction
    (P := fun n => ∀ b, stage n = .settled b → N.Delivers s.full n)
    (fun n hn ih b hst => ?_) hn
  have hlinks : ∀ p ∈ N.inputs n, ∃ x, N.feeder p = some x ∧
      Stage.Agree (s.full p) (stage n) (stage x) (t.slot p).status
        (t.counted p) := by
    intro p hp
    obtain ⟨x, hx⟩ := Option.isSome_iff_exists.mp (hT.linked n hn p hp)
    exact ⟨x, hx, h.link hn hp hx⟩
  cases b with
  | true =>
      refine .full fun p hp => ?_
      obtain ⟨x, hx, hlink⟩ := hlinks p hp
      exact hlink.of_settled.1 hst
  | false =>
      refine .fed (fun p hp => ?_) fun p hp x hx => ?_
      · obtain ⟨x, hx, hlink⟩ := hlinks p hp
        exact (hlink.of_settled.2 (Or.inl hst)).1
      · obtain ⟨-, -, b, hb⟩ := (h.link hn hp hx).of_settled.2 (Or.inl hst)
        exact ih x ⟨p, hp, hx⟩ b hb

/-- When nobody waits for a turn any more, the sink was served exactly if its
input was empty at first and what feeds it delivers. -/
theorem served_iff (hT : N.Above K T) (h : N.Demand K T s stage t)
    (hnone : ∀ n, t.queued n = false) :
    stage K = .served ↔ ∀ p ∈ N.inputs K, s.full p = false ∧
      ∀ x, N.feeder p = some x → N.Delivers s.full x := by
  constructor
  · intro hst p hp
    obtain ⟨x, hx⟩ := Option.isSome_iff_exists.mp (hT.linked K hT.sink_mem p hp)
    obtain ⟨hfull, -, b, hb⟩ :=
      (h.link hT.sink_mem hp hx).of_settled.2 (Or.inr hst)
    refine ⟨hfull, fun y hy => ?_⟩
    obtain rfl : x = y := Option.some.inj (hx.symm.trans hy)
    exact h.delivers_of_settled hT (hT.mem_of_feeds ⟨p, hp, hx⟩ hT.sink_mem) b hb
  · intro hd
    have hqueued := h.queued K
    rw [hnone K] at hqueued
    rcases h.sink with hst | hst | hst | hst
    · simp [hst, Stage.phase?] at hqueued
    · obtain ⟨p, hp, x, hx, hfull | hwait⟩ :=
        h.exists_pending hT hnone hT.sink_mem hst
      · simp [(hd p hp).1] at hfull
      · have hxK : x ≠ K := by
          rintro rfl
          exact hT.not_feeds hT.sink_mem ⟨p, hp, hx⟩
        obtain ⟨b, hb⟩ := h.settled_of_delivers hT hnone
          (hT.mem_of_feeds ⟨p, hp, hx⟩ hT.sink_mem) hxK (by simp [hwait])
          ((hd p hp).2 x hx)
        simp [hwait] at hb
    · simp [hst, Stage.phase?] at hqueued
    · exact hst

end Demand

end MediaGraph.Network

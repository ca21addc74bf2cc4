/-
The turns in which a sink is served.

* `Demand.call`, `Demand.check`, `Demand.announce`: a call, a check and an
  announcement take their node to its next stage;
* `Demand.turn`: so does every turn, and no turn fails.
-/
import MediaGraph.Proofs.Demand.Stage

namespace MediaGraph.Network

variable {τ : Type} {N : Network} {K n : NodeId} {T : Finset NodeId}
  {s t : Flow (Adapter τ)} {stage : NodeId → Stage}

namespace Demand

/-! ### Looking at a stage -/

/-- A node that waits for its turn is above the sink. -/
lemma mem_of_phase (h : N.Demand K T s stage t) {φ : Phase}
    (hn : (stage n).phase? = some φ) : n ∈ T := by
  by_contra hT
  rw [h.outside n hT] at hn
  cases hn

/-- The sink received as much as before if it was not served in the meantime. -/
lemma tally_of_same (h : N.Demand K T s stage t) {stage' : NodeId → Stage}
    {u : Flow (Adapter τ)} (hu : u.processor = t.processor)
    (hserved : stage' K = .served ↔ stage K = .served) :
    ∃ snk₀ snk, s.processor K = some (.sink snk₀) ∧ u.processor K = some (.sink snk) ∧
      snk.received = snk₀.received + if stage' K = .served then 1 else 0 := by
  obtain ⟨snk₀, snk, hs, ht, htally⟩ := h.tally
  refine ⟨snk₀, snk, hs, by rw [hu, ht], ?_⟩
  simp only [hserved, htally]

/-- The link to the input `p` of `c` is the only one that `n` feeds, and `c`
waits for it. -/
structure Outlet (N : Network) (T : Finset NodeId) (s : Flow (Adapter τ))
    (stage : NodeId → Stage) (t : Flow (Adapter τ)) (n c : NodeId) (p : PortId) :
    Prop where
  mem : c ∈ T
  input : p ∈ N.inputs c
  output : N.outputs n = [some p]
  feeder : N.feeder p = some n
  waiting : stage c = .waiting
  drained : s.full p = false
  fresh : t.counted p = false

/-- A node in the middle of its stages, except for the sink, feeds one node,
which waits for it. -/
lemma exists_outlet (hN : N.Proper) (hT : N.Above K T)
    (h : N.Demand K T s stage t) {x : Adapter τ} (hsuits : N.Suits n x)
    (hn : n ∈ T) (hK : n ≠ K) (hstage : stage n ≠ .untouched)
    (hsettled : ∀ b, stage n ≠ .settled b) :
    ∃ c p, Outlet N T s stage t n c p := by
  obtain ⟨c, hc, p, hp, hf⟩ := hT.exists_feeds hn hK
  have ht : p ∈ N.targets n := (hN.feeder hp n).mp hf
  have hout : ∃ o, N.outputs n = [o] := by
    cases x with
    | source => exact hsuits.2
    | mixer => exact hsuits.2
    | sink => simp [targets, hsuits.2] at ht
    | custom => exact hsuits.elim
  obtain ⟨o, ho⟩ := hout
  obtain rfl : o = some p := by
    rcases o with _ | q
    · simp [targets, ho, List.reduceOption] at ht
    · rw [targets_of_outputs ho, List.mem_singleton] at ht
      rw [ht]
  obtain ⟨hwait, hfull, hcounted⟩ := (h.link hc hp hf).waiting hstage hsettled
  exact ⟨c, p, hc, hp, ho, hf, hwait, hfull, hcounted⟩

namespace Outlet

variable {c : NodeId} {p : PortId}

lemma mem_targets (ho : Outlet N T s stage t n c p) : p ∈ N.targets n := by
  simp [targets_of_outputs ho.output]

lemma not_mem_inputs (hN : N.Proper) (ho : Outlet N T s stage t n c p) :
    p ∉ N.inputs n :=
  hN.not_mem_inputs ho.mem_targets

/-- A node does not feed itself. -/
lemma ne (hN : N.Proper) (ho : Outlet N T s stage t n c p) : c ≠ n := by
  rintro rfl
  exact hN.irrefl ho.input ho.feeder

/-- There is no other link that the node feeds. -/
lemma unique (hN : N.Proper) (ho : Outlet N T s stage t n c p) {c' : NodeId}
    {p' : PortId} (hp' : p' ∈ N.inputs c') (hf : N.feeder p' = some n) :
    p' = p ∧ c' = c := by
  obtain rfl : p' = p := by
    simpa [targets_of_outputs ho.output] using (hN.feeder hp' n).mp hf
  exact ⟨rfl, hN.owner_unique hp' ho.input⟩

/-- Nothing was put on the link since the node that waits asked for it. -/
lemma status (h : N.Demand K T s stage t) (ho : Outlet N T s stage t n c p)
    (hopen : (stage n).isOpen) : (t.slot p).status = .needData := by
  have hlink := h.link ho.mem ho.input ho.feeder
  rw [ho.waiting] at hlink
  generalize stage n = x at hlink hopen
  generalize (t.slot p).status = st at hlink
  generalize t.counted p = b at hlink
  cases hlink with
  | expected => rfl
  | before | full | offered | counted | spared | consumed =>
      simp [Stage.isOpen] at hopen

/-- The output of a node is on the link when the node announces it. -/
lemma status_announcing (h : N.Demand K T s stage t)
    (ho : Outlet N T s stage t n c p) {b : Bool} (hstage : stage n = .announcing b) :
    (t.slot p).status = .haveData := by
  have hlink := h.link ho.mem ho.input ho.feeder
  rw [ho.waiting, hstage] at hlink
  generalize (t.slot p).status = st at hlink
  generalize t.counted p = b' at hlink
  cases hlink with
  | expected _ hx => simp [Stage.isOpen] at hx
  | offered => rfl

end Outlet

/-! ### Calls -/

/-- Who waits after another node went on to a stage waited before. -/
lemma of_update_eq_waiting {next : Stage} (hnext : next ≠ .waiting) {c : NodeId}
    (hw : Function.update stage n next c = .waiting) : c ≠ n ∧ stage c = .waiting := by
  rcases eq_or_ne c n with rfl | hcn
  · rw [Function.update_self] at hw
    exact absurd hw hnext
  · rw [Function.update_of_ne hcn] at hw
    exact ⟨hcn, hw⟩

/-- A call that goes well takes its node to a stage that agrees with the stages
around. -/
lemma call (hN : N.Proper) (hT : N.Above K T) (h : N.Demand K T s stage t)
    (hn : n ∈ T) {x : Adapter τ} {side : Side} {verdict : Verdict}
    {slot : PortId → Slot} {v : FlowTurn (Adapter τ)}
    (hv : N.Called (some K) n side verdict slot x t v) {next : Stage}
    (hwait : next ≠ .waiting) (hserved : next = .served ↔ n = K)
    (hphase : next.phase? = if side = .input ∧ K = n then none
      else some (Node.phaseAfter verdict))
    (hshort : n ≠ K → next.isShort → ∃ p ∈ N.inputs n, s.full p = false)
    (hin : ∀ q ∈ N.inputs n, ∀ y, N.feeder q = some y → ∀ b,
      Stage.Agree (s.full q) next (stage y) (slot q).status b)
    (hout : ∀ c p, c ∈ T → p ∈ N.inputs c → N.feeder p = some n →
      Stage.Agree (s.full p) (stage c) next (slot p).status (t.counted p))
    (hframe : ∀ m ≠ n, ∀ q ∈ N.inputs m, (m ∈ T → N.feeder q ≠ some n) →
      slot q = t.slot q)
    (htally : n = K → ∃ snk₀ snk, s.processor K = some (.sink snk₀) ∧
      x = .sink snk ∧ snk.received = snk₀.received + 1) :
    N.Demand K T s (Function.update stage n next) v.flow where
  outside m hm := by
    rw [Function.update_of_ne (ne_of_mem_of_not_mem hn hm).symm, h.outside m hm]
  sink := by
    rcases eq_or_ne n K with rfl | hK
    · exact Or.inr (Or.inr (Or.inr (by simp [hserved.mpr])))
    · rw [Function.update_of_ne hK.symm]
      exact h.sink
  served m hm := by
    rcases eq_or_ne m n with rfl | hne
    · rw [Function.update_self] at hm
      exact hserved.mp hm
    · rw [Function.update_of_ne hne] at hm
      exact h.served m hm
  queued m := by
    rw [hv.queued]
    rcases eq_or_ne m n with rfl | hne
    · rw [Function.update_self, Function.update_self, hphase]
      by_cases hlast : side = .input ∧ K = m
      · simp [hlast.1, hlast.2]
      · rw [if_neg hlast, decide_eq_false fun hD => hlast ⟨hD.1, Option.some.inj hD.2⟩]
        rfl
    · rw [Function.update_of_ne hne, Function.update_of_ne hne, h.queued]
  phase m φ hφ := by
    rw [hv.phase]
    rcases eq_or_ne m n with rfl | hne
    · rw [Function.update_self, hphase] at hφ
      rw [Function.update_self]
      split at hφ
      · cases hφ
      · exact Option.some.inj hφ
    · rw [Function.update_of_ne hne] at hφ ⊢
      exact h.phase m φ hφ
  link {c p y} hc hp hy := by
    rw [hv.slot]
    rcases eq_or_ne c n with rfl | hcn
    · have hyn : y ≠ c := by
        rintro rfl
        exact hN.irrefl hp hy
      rw [Function.update_self, Function.update_of_ne hyn]
      exact hin p hp y hy _
    · rw [Function.update_of_ne hcn, hv.counted c hcn p hp]
      rcases eq_or_ne y n with rfl | hyn
      · rw [Function.update_self]
        exact hout c p hc hp hy
      · rw [Function.update_of_ne hyn, hframe c hcn p hp fun _ => by simpa [hy] using hyn]
        exact h.link hc hp hy
  ready c hc hw := by
    obtain ⟨hcn, hw⟩ := of_update_eq_waiting hwait hw
    rw [hv.ready c hcn, h.ready c hc hw]
    exact List.countP_congr fun p hp => by rw [hv.counted c hcn p hp]
  pending c hc hw := by
    obtain ⟨hcn, hw⟩ := of_update_eq_waiting hwait hw
    obtain ⟨p, hp, hcounted⟩ := h.pending c hc hw
    exact ⟨p, hp, by rw [hv.counted c hcn p hp, hcounted]⟩
  short c hc hcK hstage := by
    rcases eq_or_ne c n with rfl | hcn
    · rw [Function.update_self] at hstage
      exact hshort hcK hstage
    · rw [Function.update_of_ne hcn] at hstage
      exact h.short c hc hcK hstage
  frame c hc p hp := by
    rw [hv.slot, hframe c (ne_of_mem_of_not_mem hn hc).symm p hp fun hcT => absurd hcT hc,
      h.frame c hc p hp]
  tally := by
    rw [hv.processor]
    rcases eq_or_ne n K with rfl | hK
    · obtain ⟨snk₀, snk, hs, rfl, hreceived⟩ := htally rfl
      refine ⟨snk₀, snk, hs, Function.update_self .., ?_⟩
      rw [Function.update_self, if_pos (hserved.mpr rfl), hreceived]
    · rw [Function.update_of_ne hK.symm, Function.update_of_ne hK.symm]
      exact h.tally

/-- Where a node above the sink finds its inputs when it is asked for output. -/
lemma link_asked (h : N.Demand K T s stage t) (hn : n ∈ T)
    (hstage : stage n = .asked) {q : PortId} (hq : q ∈ N.inputs n) {y : NodeId}
    (hy : N.feeder q = some y) :
    stage y = .untouched ∧ (t.slot q).hasData = s.full q := by
  have hlink := h.link hn hq hy
  rw [hstage] at hlink
  generalize stage y = y' at hlink
  generalize hst : (t.slot q).status = st at hlink
  generalize t.counted q = b at hlink
  cases hlink with
  | before _ hfull =>
      refine ⟨rfl, ?_⟩
      rw [Slot.hasData, hst, Bool.eq_iff_iff, decide_eq_true_iff, hfull]
  | full hc => simp at hc
  | spared hc => simp at hc
  | consumed hc => simp at hc

/-- Where a node above the sink finds its inputs when all were counted. -/
lemma link_loaded (h : N.Demand K T s stage t) (hn : n ∈ T)
    (hstage : stage n = .loaded) {q : PortId} (hq : q ∈ N.inputs n) {y : NodeId}
    (hy : N.feeder q = some y) :
    s.full q = false ∧ (∃ b, stage y = .settled b) ∧
      (t.slot q).hasData = true := by
  have hlink := h.link hn hq hy
  rw [hstage] at hlink
  generalize stage y = y' at hlink
  generalize hst : (t.slot q).status = st at hlink
  generalize t.counted q = b at hlink
  cases hlink with
  | before hc => simp at hc
  | full hc => simp at hc
  | spared hc => simp at hc
  | complete hfull => exact ⟨hfull, ⟨_, rfl⟩, by simp [Slot.hasData, hst]⟩
  | consumed hc => simp at hc

/-- A call that goes well of a node above the sink. -/
lemma call_above (hN : N.Proper) (hT : N.Above K T)
    (h : N.Demand K T s stage t) (hn : n ∈ T) (hK : n ≠ K) {c : NodeId}
    {p : PortId} (ho : Outlet N T s stage t n c p) {x : Adapter τ} (side : Side)
    {verdict : Verdict} {slot : PortId → Slot} {next : Stage}
    (hwait : next ≠ .waiting) (hserved : next ≠ .served)
    (hphase : next.phase? = some (Node.phaseAfter verdict))
    (hshort : next.isShort → ∃ q ∈ N.inputs n, s.full q = false)
    (hin : ∀ q ∈ N.inputs n, ∀ y, N.feeder q = some y → ∀ b,
      Stage.Agree (s.full q) next (stage y) (slot q).status b)
    (hout : Stage.Agree false .waiting next (slot p).status false)
    (hframe : ∀ q, q ≠ p → q ∉ N.inputs n → slot q = t.slot q) :
    N.Demand K T s (Function.update stage n next)
      (report (some K) n side (N.conclude n side (.ok verdict) slot x
        (t.dequeue n).countTurn)).flow := by
  refine h.call hN hT hn (N.called hN (some K) n side verdict slot x t) hwait
    ⟨fun he => absurd he hserved, fun he => absurd he hK⟩ ?_ (fun _ => hshort)
    hin ?_ ?_ fun he => absurd he hK
  · rw [hphase, if_neg fun hc => hK hc.2.symm]
  · intro c' p' _ hp' hf
    obtain ⟨rfl, rfl⟩ := ho.unique hN hp' hf
    rwa [ho.waiting, ho.drained, ho.fresh]
  · intro m hm q hq hfq
    refine hframe q ?_ fun hqn => hm (hN.owner_unique hq hqn)
    rintro rfl
    exact hfq (hN.owner_unique hq ho.input ▸ ho.mem) ho.feeder

/-- A call of a node above the sink makes output of its inputs if all of them hold data,
and asks for data otherwise. -/
lemma Outlet.acts (hT : N.Above K T) {c : NodeId} {p : PortId}
    (ho : Outlet N T s stage t n c p) (hn : n ∈ T) (hdata : (t.slot p).hasData = false)
    {x x' : Adapter τ} (hsuits : N.Suits n x)
    (hwhole : ∀ pool, x.pool? = some pool → (pool.recycle (t.slot p).buffer).Whole)
    {side : Side} (hside : side = .input → N.inputs n ≠ [])
    {r : Except ProcessError Verdict} {slot : PortId → Slot}
    (hacts : N.Acts n t.slot x side r slot x') :
    ((∀ q ∈ N.inputs n, (t.slot q).hasData = true) ∧ r = .ok .haveOutput ∧
        ∃ b, slot = Function.update (N.onInputs n (·.take.2) t.slot) p (.provide b)) ∨
      (∃ q ∈ N.inputs n, (t.slot q).hasData = false) ∧ r = .ok .needInput ∧
        slot = N.onInputs n Mixer.requestIfDrained t.slot := by
  have hlinked : ∀ {q}, q ∈ N.inputs n → (N.feeder q).isSome = true := fun hq =>
    hT.linked n hn _ hq
  have hplain : ∀ {q}, q ∈ N.inputs n → N.optional q = false := fun hq =>
    hT.plain n hn _ hq
  cases hacts with
  | notSupported => exact absurd hsuits.1 (hside rfl)
  | mute ho' => simp [ho.output] at ho'
  | keep ho' hd | hold ho' hd =>
      obtain rfl : p = _ := by simpa [ho.output] using ho'
      simp [hdata] at hd
  | deaf | want | consume => simpa [ho.output] using hsuits.2
  | idle hidle =>
      obtain ⟨q, hq⟩ := List.exists_mem_of_ne_nil _ hsuits.1
      rcases hidle with ho' | hnone
      · simp [ho.output] at ho'
      · simpa [hnone q hq] using hlinked hq
  | dry ho' _ hacq | spill ho' _ _ _ hacq =>
      obtain rfl : p = _ := by simpa [ho.output] using ho'
      exact absurd hacq ((hwhole _ rfl).acquire_ne_none _)
  | produce ho' =>
      obtain rfl : p = _ := by simpa [ho.output] using ho'
      have hid : N.onInputs n (·.take.2) t.slot = t.slot := by
        funext q
        simp [onInputs, hsuits.1]
      exact Or.inl ⟨by simp [hsuits.1], rfl, _, by rw [hid]⟩
  | mix ho' _ hmissing =>
      obtain rfl : p = _ := by simpa [ho.output] using ho'
      refine Or.inl ⟨fun q hq => ?_, rfl, _, rfl⟩
      simpa [isMissing, hlinked hq, hplain hq] using hmissing q hq
  | request _ _ _ hmissing =>
      refine Or.inr ⟨?_, rfl, rfl⟩
      rcases hmissing with ⟨q, hq, hmq⟩ | hnone
      · simp only [isMissing, Bool.and_eq_true, Bool.not_eq_true'] at hmq
        exact ⟨q, hq, hmq.1.2⟩
      · obtain ⟨q, hq⟩ := List.exists_mem_of_ne_nil _ hsuits.1
        exact ⟨q, hq, by simpa [holds, hlinked hq] using hnone q hq⟩

/-- The turn of a node that is asked for output. -/
lemma turn_asked (hN : N.Proper) (hT : N.Above K T)
    (h : N.Demand K T s stage t) (hstage : stage n = .asked)
    (hsuits : ∀ x, t.processor n = some x → N.Suits n x)
    (hwhole : ∀ x pool p, t.processor n = some x → x.pool? = some pool →
      N.outputs n = [some p] → (pool.recycle (t.slot p).buffer).Whole)
    {v : FlowTurn (Adapter τ)} (hv : N.Serves (some K) n t v) :
    ∃ next verdict, (next = .announcing true ∨ next = .checking) ∧
      v.failure = none ∧ v.callback = some ⟨n, .output, .ok verdict⟩ ∧
      N.Demand K T s (Function.update stage n next) v.flow := by
  have hn : n ∈ T := h.mem_of_phase (by rw [hstage]; rfl)
  have hK : n ≠ K := by
    rintro rfl
    simpa [hstage] using h.sink
  obtain ⟨x, r, slot, x', hx, hacts, rfl⟩ :=
    hv.exists_acts .output (h.phase n _ (by rw [hstage]; rfl))
  obtain ⟨c, p, ho⟩ := h.exists_outlet hN hT (hsuits x hx) hn hK
    (by simp [hstage]) (by simp [hstage])
  have hneed := ho.status h (by simp [hstage, Stage.isOpen])
  have hin : ∀ q ∈ N.inputs n, (t.slot q).hasData = s.full q := by
    intro q hq
    obtain ⟨y, hy⟩ := Option.isSome_iff_exists.mp (hT.linked n hn q hq)
    exact (h.link_asked hn hstage hq hy).2
  rcases ho.acts hT hn (by simp [Slot.hasData, hneed]) (hsuits x hx)
    (fun pool hpool => hwhole x pool p hx hpool ho.output) (by simp) hacts with
    ⟨hfull, rfl, b, rfl⟩ | ⟨⟨q₀, hq₀, hempty⟩, rfl, rfl⟩
  · refine ⟨.announcing true, _, Or.inl rfl, rfl, rfl,
      h.call_above hN hT hn hK ho .output (by simp) (by simp) rfl
        (by simp [Stage.isShort])
        (fun q hq y hy _ => ?_) ?_ fun q hqp hqn => ?_⟩
    · have hqp : q ≠ p := ne_of_mem_of_not_mem hq (ho.not_mem_inputs hN)
      rw [Function.update_of_ne hqp, onInputs, if_pos ⟨hq, by simp [hy]⟩,
        Slot.take, if_pos (hfull q hq), (h.link_asked hn hstage hq hy).1]
      exact .spared (Or.inl rfl) (hin q hq ▸ hfull q hq)
    · rw [Function.update_self]
      exact .offered rfl
    · rw [Function.update_of_ne hqp, onInputs, if_neg fun hc => hqn hc.1]
  · refine ⟨.checking, _, Or.inr rfl, rfl, rfl,
      h.call_above hN hT hn hK ho .output (by simp) (by simp) rfl
        (fun _ => ⟨q₀, hq₀, hin q₀ hq₀ ▸ hempty⟩)
        (fun q hq y hy _ => ?_) ?_ fun q _ hqn => ?_⟩
    · rw [onInputs, if_pos ⟨hq, by simp [hy]⟩, Mixer.requestIfDrained,
        hin q hq, (h.link_asked hn hstage hq hy).1]
      rcases hfq : s.full q
      · exact .requested rfl
      · have hd : (t.slot q).status = .haveData := by
          simpa [Slot.hasData, hfq] using hin q hq
        simp only [if_true, hd]
        exact .full (Or.inl rfl) rfl
    · rw [onInputs, if_neg fun hc => ho.not_mem_inputs hN hc.1, hneed]
      exact .expected rfl (Or.inr (Or.inl rfl))
    · rw [onInputs, if_neg fun hc => hqn hc.1]

/-- The turn of a node above the sink whose inputs were all counted. -/
lemma turn_loaded (hN : N.Proper) (hT : N.Above K T)
    (h : N.Demand K T s stage t) (hstage : stage n = .loaded) (hK : n ≠ K)
    (hsuits : ∀ x, t.processor n = some x → N.Suits n x)
    (hwhole : ∀ x pool p, t.processor n = some x → x.pool? = some pool →
      N.outputs n = [some p] → (pool.recycle (t.slot p).buffer).Whole)
    {v : FlowTurn (Adapter τ)} (hv : N.Serves (some K) n t v) :
    ∃ verdict, v.failure = none ∧ v.callback = some ⟨n, .input, .ok verdict⟩ ∧
      N.Demand K T s (Function.update stage n (.announcing false)) v.flow := by
  have hn : n ∈ T := h.mem_of_phase (by rw [hstage]; rfl)
  obtain ⟨x, r, slot, x', hx, hacts, rfl⟩ :=
    hv.exists_acts .input (h.phase n _ (by rw [hstage]; rfl))
  obtain ⟨c, p, ho⟩ := h.exists_outlet hN hT (hsuits x hx) hn hK
    (by simp [hstage]) (by simp [hstage])
  have hneed := ho.status h (by simp [hstage, Stage.isOpen])
  have hshort := h.short n hn hK (by simp [hstage, Stage.isShort])
  have hinputs : N.inputs n ≠ [] := List.ne_nil_of_mem hshort.choose_spec.1
  rcases ho.acts hT hn (by simp [Slot.hasData, hneed]) (hsuits x hx)
    (fun pool hpool => hwhole x pool p hx hpool ho.output) (fun _ => hinputs) hacts with
    ⟨hfull, rfl, b, rfl⟩ | ⟨⟨q, hq, hempty⟩, -⟩
  · refine ⟨_, rfl, rfl,
      h.call_above hN hT hn hK ho .input (by simp) (by simp) rfl
        (fun _ => hshort) (fun q hq y hy _ => ?_) ?_ fun q hqp hqn => ?_⟩
    · have hqp : q ≠ p := ne_of_mem_of_not_mem hq (ho.not_mem_inputs hN)
      obtain ⟨hdrained, ⟨b, hb⟩, -⟩ := h.link_loaded hn hstage hq hy
      rw [Function.update_of_ne hqp, onInputs, if_pos ⟨hq, by simp [hy]⟩,
        Slot.take, if_pos (hfull q hq), hb]
      exact .consumed (Or.inl rfl) hdrained
    · rw [Function.update_self]
      exact .offered rfl
    · rw [Function.update_of_ne hqp, onInputs, if_neg fun hc => hqn hc.1]
  · -- all inputs were counted, so none of them is drained
    obtain ⟨y, hy⟩ := Option.isSome_iff_exists.mp (hT.linked n hn q hq)
    simp [(h.link_loaded hn hstage hq hy).2.2] at hempty

/-- The turn of the sink once its input was counted. -/
lemma turn_sink (hN : N.Proper) (hT : N.Above K T)
    (h : N.Demand K T s stage t) (hstage : stage K = .loaded)
    (hsuits : ∀ x, t.processor K = some x → N.Suits K x)
    {v : FlowTurn (Adapter τ)} (hv : N.Serves (some K) K t v) :
    ∃ verdict, v.failure = none ∧ v.callback = some ⟨K, .input, .ok verdict⟩ ∧
      N.Demand K T s (Function.update stage K .served) v.flow := by
  obtain ⟨x, r, slot, x', hx, hacts, rfl⟩ :=
    hv.exists_acts .input (h.phase K _ (by rw [hstage]; rfl))
  obtain ⟨snk₀, snk, hs, hsnk, htally⟩ := h.tally
  obtain rfl : x = .sink snk := by
    rw [hx] at hsnk
    exact Option.some.inj hsnk
  obtain ⟨⟨p, hp⟩, -⟩ := hsuits _ hx
  have hpK : p ∈ N.inputs K := by simp [hp]
  obtain ⟨y, hy⟩ := Option.isSome_iff_exists.mp
    (hT.linked K hT.sink_mem p hpK)
  obtain ⟨hfull, ⟨b, hb⟩, hdata⟩ := h.link_loaded hT.sink_mem hstage hpK hy
  cases hacts with
  | deaf hp' hf =>
      obtain rfl : p = _ := by simpa [hp] using hp'
      simp [hy] at hf
  | want hp' _ hd =>
      obtain rfl : p = _ := by simpa [hp] using hp'
      simp [hdata] at hd
  | @consume _ p' hp' =>
      obtain rfl : p = p' := by simpa [hp] using hp'
      refine ⟨_, rfl, rfl, h.call hN hT hT.sink_mem (N.called hN _ _ _ _ _ _ _)
        (by simp) (by simp) (by simp [Stage.phase?]) (by simp) ?_ ?_ ?_ ?_⟩
      · intro q hq z hz b'
        obtain rfl : q = p := by simpa [hp] using hq
        obtain rfl : y = z := by simpa [hy] using hz
        rw [Function.update_self, hb]
        exact .consumed (by simp) hfull
      · intro c q hc hq hf
        exact absurd ⟨q, hq, hf⟩ (hT.not_feeds hc)
      · intro m hm q hq _
        rw [Function.update_of_ne]
        rintro rfl
        exact hm (hN.owner_unique hq hpK)
      · intro _
        refine ⟨snk₀, _, hs, rfl, ?_⟩
        simpa [hstage] using htally

/-! ### Checks -/

/-- The stages after a check of `n`, in which those were asked that `asks`. -/
def afterCheck (stage : NodeId → Stage) (n : NodeId) (asks : NodeId → Bool) :
    NodeId → Stage :=
  fun m => if m = n then .waiting else if asks m then .asked else stage m

section AfterCheck

variable {asks : NodeId → Bool} {m : NodeId}

lemma afterCheck_self : afterCheck stage n asks n = .waiting := if_pos rfl

lemma afterCheck_asked (hm : m ≠ n) (ha : asks m = true) :
    afterCheck stage n asks m = .asked := by
  rw [afterCheck, if_neg hm, if_pos ha]

lemma afterCheck_other (hm : m ≠ n) (ha : asks m = false) :
    afterCheck stage n asks m = stage m := by
  rw [afterCheck, if_neg hm, ha, if_neg Bool.false_ne_true]

/-- Who waits after the check of another node waited before. -/
lemma waiting_of_afterCheck (hm : m ≠ n) (hw : afterCheck stage n asks m = .waiting) :
    stage m = .waiting := by
  rw [afterCheck, if_neg hm] at hw
  split at hw
  · cases hw
  · exact hw

end AfterCheck

/-- A check of a node above the sink finds requests and data in its inputs. -/
lemma link_checking (h : N.Demand K T s stage t) (hn : n ∈ T)
    (hstage : stage n = .checking) {q : PortId} (hq : q ∈ N.inputs n) {y : NodeId}
    (hy : N.feeder q = some y) :
    stage y = .untouched ∧
      (t.slot q).status = if s.full q then .haveData else .needData := by
  have hlink := h.link hn hq hy
  rw [hstage] at hlink
  generalize stage y = y' at hlink
  generalize (t.slot q).status = st at hlink
  generalize t.counted q = b at hlink
  generalize s.full q = full at hlink
  cases hlink with
  | before hc => simp at hc
  | full _ hfull => simp [hfull]
  | requested hfull => simp [hfull]
  | spared hc => simp at hc
  | consumed hc => simp at hc

/-- A check asks the nodes that feed the drained inputs. -/
lemma asksIn_iff (hT : N.Above K T) (h : N.Demand K T s stage t) (hn : n ∈ T)
    (hstage : stage n = .checking) {q : PortId} (hq : q ∈ N.inputs n) {y : NodeId}
    (hy : N.feeder q = some y) :
    N.asksIn (some K) t.slot n y = !s.full q := by
  have hyK : y ≠ K := by
    rintro rfl
    exact hT.not_feeds hn ⟨q, hq, hy⟩
  have hstatus := (h.link_checking hn hstage hq hy).2
  rw [Bool.eq_iff_iff, asksIn, List.any_eq_true]
  constructor
  · rintro ⟨q', hq', ha⟩
    simp only [asks, Bool.and_eq_true, decide_eq_true_eq] at ha
    obtain rfl := hT.single hq hq' hy ha.1.1
    rw [ha.1.2] at hstatus
    cases hf : s.full q
    · rfl
    · simp [hf] at hstatus
  · intro hf
    refine ⟨q, hq, ?_⟩
    simp only [Bool.not_eq_true'] at hf
    simp [asks, hy, hstatus, hf, hyK.symm]

/-- What a check asks is fed to the checked node, and was not asked before. -/
lemma of_asksIn (h : N.Demand K T s stage t) (hn : n ∈ T)
    (hstage : stage n = .checking) {y : NodeId}
    (ha : N.asksIn (some K) t.slot n y = true) :
    N.Feeds y n ∧ stage y = .untouched := by
  rw [asksIn, List.any_eq_true] at ha
  obtain ⟨q, hq, ha⟩ := ha
  simp only [asks, Bool.and_eq_true, decide_eq_true_eq] at ha
  exact ⟨⟨q, hq, ha.1.1⟩, (h.link_checking hn hstage hq ha.1.1).1⟩

/-- A check asks those only that feed the checked node. -/
lemma asksIn_eq_false (h : N.Demand K T s stage t) (hn : n ∈ T)
    (hstage : stage n = .checking) {y : NodeId} (hy : ¬ N.Feeds y n) :
    N.asksIn (some K) t.slot n y = false :=
  Bool.eq_false_iff.mpr fun ha => hy (h.of_asksIn hn hstage ha).1

/-- Something was said about each input of a node that has to check them. -/
lemma isUntouched_checking (hT : N.Above K T) (h : N.Demand K T s stage t) (hn : n ∈ T)
    (hstage : stage n = .checking) {q : PortId} (hq : q ∈ N.inputs n) :
    N.isUntouched t.slot q = false := by
  obtain ⟨y, hy⟩ := Option.isSome_iff_exists.mp (hT.linked n hn q hq)
  rw [isUntouched, (h.link_checking hn hstage hq hy).2]
  split <;> simp

/-- The links after a check of a node above the sink. -/
lemma link_checked (hN : N.Proper) (hT : N.Above K T) (h : N.Demand K T s stage t)
    (hn : n ∈ T) (hstage : stage n = .checking) {u : Flow (Adapter τ)}
    (hu : N.Checked (some K) n t u) {c y : NodeId} {p : PortId} (hc : c ∈ T)
    (hp : p ∈ N.inputs c) (hy : N.feeder p = some y) :
    Stage.Agree (s.full p) (afterCheck stage n (N.asksIn (some K) t.slot n) c)
      (afterCheck stage n (N.asksIn (some K) t.slot n) y) (u.slot p).status
      (u.counted p) := by
  have hyc : y ≠ c := by
    rintro rfl
    exact hN.irrefl hp hy
  rw [hu.slot]
  rcases eq_or_ne c n with rfl | hcn
  · -- the input was checked, and what feeds it was asked if it was drained
    obtain ⟨huy, hstatus⟩ := h.link_checking hn hstage hp hy
    rw [afterCheck_self, afterCheck, if_neg hyc, hu.counted_self p hp,
      h.isUntouched_checking hT hn hstage hp, h.asksIn_iff hT hn hstage hp hy, hstatus, huy]
    cases s.full p
    · exact .expected rfl (Or.inl rfl)
    · exact .full (Or.inr ⟨rfl, rfl⟩) rfl
  · have hlink := h.link hc hp hy
    rw [hu.counted c hcn p hp]
    rcases eq_or_ne y n with rfl | hyn
    · have hac : ¬ N.Feeds c y := fun hcy =>
        hT.acyclic c (.trans (.single hcy) (.single ⟨p, hp, hy⟩))
      rw [hstage] at hlink
      rw [afterCheck_self, afterCheck_other hcn (h.asksIn_eq_false hn hstage hac)]
      exact hlink.proceed (by simp [Stage.isOpen]) (by simp [Stage.isOpen])
    · have hay : ¬ N.Feeds y n := by
        rintro ⟨q, hq, hyq⟩
        exact hcn (hN.owner_unique hp (hT.single hp hq hy hyq ▸ hq))
      rw [afterCheck_other hyn (h.asksIn_eq_false hn hstage hay)]
      rcases ha : N.asksIn (some K) t.slot n c
      · rwa [afterCheck_other hcn ha]
      · rw [(h.of_asksIn hn hstage ha).2] at hlink
        rw [afterCheck_asked hcn ha]
        exact hlink.ask

/-- A check takes a node to the stage at which it waits, and asks others. -/
lemma check (hN : N.Proper) (hT : N.Above K T) (h : N.Demand K T s stage t)
    (hn : n ∈ T) (hstage : stage n = .checking) (hinputs : N.inputs n ≠ [])
    {u : Flow (Adapter τ)} (hu : N.Checked (some K) n t u) :
    N.Demand K T s (afterCheck stage n (N.asksIn (some K) t.slot n)) u where
  outside m hm := by
    rw [afterCheck_other (ne_of_mem_of_not_mem hn hm).symm (h.asksIn_eq_false hn hstage
      fun hmn => hm (hT.mem_of_feeds hmn hn)), h.outside m hm]
  sink := by
    rcases eq_or_ne K n with rfl | hKn
    · exact Or.inr (Or.inl afterCheck_self)
    · rw [afterCheck_other hKn (h.asksIn_eq_false hn hstage (hT.not_feeds hn))]
      exact h.sink
  served m hm := by
    rw [afterCheck] at hm
    split at hm
    · cases hm
    · split at hm
      · cases hm
      · exact h.served m hm
  queued m := by
    rw [hu.queued]
    rcases eq_or_ne m n with rfl | hmn
    · rw [afterCheck_self, Function.update_self,
        h.asksIn_eq_false hn hstage fun hmm => hT.acyclic m (.single hmm)]
      rfl
    · rw [Function.update_of_ne hmn, h.queued]
      rcases ha : N.asksIn (some K) t.slot n m
      · rw [afterCheck_other hmn ha, Bool.or_false]
      · rw [afterCheck_asked hmn ha, Bool.or_true]
        rfl
  phase m φ hφ := by
    rw [hu.phase]
    rw [afterCheck] at hφ
    split at hφ
    · cases hφ
    · split at hφ
      · rename_i ha
        cases hφ
        rw [if_pos ha]
      · rename_i ha
        rw [if_neg ha]
        exact h.phase m φ hφ
  link hc hp hy := h.link_checked hN hT hn hstage hu hc hp hy
  ready c hc hw := by
    rcases eq_or_ne c n with rfl | hcn
    · rw [hu.ready_self]
      exact List.countP_congr fun q hq => by rw [hu.counted_self q hq]
    · rw [hu.ready c hcn, h.ready c hc (waiting_of_afterCheck hcn hw)]
      exact List.countP_congr fun q hq => by rw [hu.counted c hcn q hq]
  pending c hc hw := by
    rcases eq_or_ne c n with rfl | hcn
    · obtain ⟨q, hq⟩ := List.exists_mem_of_ne_nil _ hinputs
      exact ⟨q, hq, by rw [hu.counted_self q hq, h.isUntouched_checking hT hn hstage hq]⟩
    · obtain ⟨q, hq, hcounted⟩ := h.pending c hc (waiting_of_afterCheck hcn hw)
      exact ⟨q, hq, by rw [hu.counted c hcn q hq, hcounted]⟩
  short c hc hcK hw := by
    rcases eq_or_ne c n with rfl | hcn
    · exact h.short c hc hcK (by simp [hstage, Stage.isShort])
    · rw [afterCheck, if_neg hcn] at hw
      split at hw
      · simp [Stage.isShort] at hw
      · exact h.short c hc hcK hw
  frame := hu.slot ▸ h.frame
  tally := by
    refine h.tally_of_same hu.processor ?_
    rcases eq_or_ne K n with rfl | hKn
    · simp [afterCheck_self, hstage]
    · rw [afterCheck_other hKn (h.asksIn_eq_false hn hstage (hT.not_feeds hn))]

/-! ### Announcements -/

/-- The stages after an announcement by `n`, which made output at once or not,
to `c`, which it completes or not. -/
def afterAnnounce (stage : NodeId → Stage) (n c : NodeId) (direct full : Bool) :
    NodeId → Stage :=
  Function.update (Function.update stage n (.settled direct)) c
    (if full then .loaded else .waiting)

section AfterAnnounce

variable {c m : NodeId} {direct full : Bool}

lemma afterAnnounce_self (hcn : c ≠ n) :
    afterAnnounce stage n c direct full n = .settled direct := by
  rw [afterAnnounce, Function.update_of_ne hcn.symm, Function.update_self]

lemma afterAnnounce_next :
    afterAnnounce stage n c direct full c = if full then .loaded else .waiting :=
  Function.update_self ..

lemma afterAnnounce_other (hmn : m ≠ n) (hmc : m ≠ c) :
    afterAnnounce stage n c direct full m = stage m := by
  rw [afterAnnounce, Function.update_of_ne hmc, Function.update_of_ne hmn]

/-- Who else waits after an announcement waited before. -/
lemma waiting_of_afterAnnounce (hcn : c ≠ n) (hmc : m ≠ c)
    (hw : afterAnnounce stage n c direct full m = .waiting) : stage m = .waiting := by
  rcases eq_or_ne m n with rfl | hmn
  · rw [afterAnnounce_self hcn] at hw
    cases hw
  · rwa [afterAnnounce_other hmn hmc] at hw

end AfterAnnounce

section Announce

variable {b full : Bool} {c : NodeId} {p : PortId} {u : Flow (Adapter τ)}

/-- The sink announces nothing. -/
lemma ne_sink_of_announcing (h : N.Demand K T s stage t) (hstage : stage n = .announcing b) :
    n ≠ K := by
  rintro rfl
  simpa [hstage] using h.sink

/-- An announcement counts no input of another node. -/
lemma Outlet.counted_other (hN : N.Proper) (ho : Outlet N T s stage t n c p)
    (hu : Announced n c p full t u) {m : NodeId} (hm : m ≠ c) {q : PortId}
    (hq : q ∈ N.inputs m) : u.counted q = t.counted q := by
  rw [hu.counted, Function.update_of_ne]
  rintro rfl
  exact hm (hN.owner_unique hq ho.input)

/-- The links to the node that hears an announcement. -/
lemma link_announced_next (hN : N.Proper) (h : N.Demand K T s stage t)
    (hstage : stage n = .announcing b) (ho : Outlet N T s stage t n c p)
    (hu : Announced n c p full t u) (hfull : full = (N.inputs c).all u.counted)
    {q : PortId} {y : NodeId} (hq : q ∈ N.inputs c) (hy : N.feeder q = some y) :
    Stage.Agree (s.full q) (afterAnnounce stage n c b full c)
      (afterAnnounce stage n c b full y) (u.slot q).status (u.counted q) := by
  rw [hu.slot, afterAnnounce_next]
  rcases eq_or_ne y n with rfl | hyn
  · obtain ⟨rfl, -⟩ := ho.unique hN hq hy
    rw [afterAnnounce_self (ho.ne hN), ho.drained, ho.status_announcing h hstage, hu.counted,
      Function.update_self]
    cases full
    · exact .counted rfl
    · exact .complete rfl
  · have hyc : y ≠ c := by
      rintro rfl
      exact hN.irrefl hq hy
    have hsame : u.counted q = t.counted q := by
      rw [hu.counted, Function.update_of_ne]
      rintro rfl
      exact hyn (Option.some.inj (hy.symm.trans ho.feeder))
    have hlink := h.link ho.mem hq hy
    rw [ho.waiting, ← hsame] at hlink
    rw [afterAnnounce_other hyn hyc]
    cases full with
    | false => exact hlink
    | true =>
        rw [List.all_eq_true.mp hfull.symm q hq] at hlink ⊢
        exact hlink.load

/-- The links to other nodes after an announcement. -/
lemma link_announced_other (hN : N.Proper) (h : N.Demand K T s stage t)
    (hstage : stage n = .announcing b) (ho : Outlet N T s stage t n c p)
    (hu : Announced n c p full t u) {m y : NodeId} {q : PortId} (hm : m ∈ T) (hmc : m ≠ c)
    (hq : q ∈ N.inputs m) (hy : N.feeder q = some y) :
    Stage.Agree (s.full q) (afterAnnounce stage n c b full m)
      (afterAnnounce stage n c b full y) (u.slot q).status (u.counted q) := by
  have hyn : y ≠ n := by
    rintro rfl
    exact hmc (ho.unique hN hq hy).2
  have hlink := h.link hm hq hy
  rw [hu.slot, ho.counted_other hN hu hmc hq]
  -- the node that heard the announcement may be the one that feeds this link
  have hfeeder : Stage.Agree (s.full q) (stage m) (afterAnnounce stage n c b full y)
      (t.slot q).status (t.counted q) := by
    rcases eq_or_ne y c with rfl | hyc
    · rw [ho.waiting] at hlink
      rw [afterAnnounce_next]
      refine hlink.proceed (by simp [Stage.isOpen]) ?_
      cases full <;> simp [Stage.isOpen]
    · rwa [afterAnnounce_other hyn hyc]
  rcases eq_or_ne m n with rfl | hmn
  · rw [hstage] at hfeeder
    rw [afterAnnounce_self (ho.ne hN)]
    exact hfeeder.settle
  · rwa [afterAnnounce_other hmn hmc]

/-- An announcement is counted by the node that waits for it, which goes on
once all its inputs were counted. -/
lemma announce (hN : N.Proper) (h : N.Demand K T s stage t)
    (hstage : stage n = .announcing b) (ho : Outlet N T s stage t n c p)
    (hu : Announced n c p full t u) (hfull : full = (N.inputs c).all u.counted) :
    N.Demand K T s (afterAnnounce stage n c b full) u where
  outside m hm := by
    have hn : n ∈ T := h.mem_of_phase (by rw [hstage]; rfl)
    rw [afterAnnounce_other (ne_of_mem_of_not_mem hn hm).symm
      (ne_of_mem_of_not_mem ho.mem hm).symm, h.outside m hm]
  sink := by
    rcases eq_or_ne K c with rfl | hKc
    · rw [afterAnnounce_next]
      cases full <;> simp
    · rw [afterAnnounce_other (h.ne_sink_of_announcing hstage).symm hKc]
      exact h.sink
  served m hm := by
    rcases eq_or_ne m c with rfl | hmc
    · rw [afterAnnounce_next] at hm
      cases full <;> simp at hm
    · rcases eq_or_ne m n with rfl | hmn
      · simp [afterAnnounce_self (ho.ne hN)] at hm
      · rw [afterAnnounce_other hmn hmc] at hm
        exact h.served m hm
  queued m := by
    rw [hu.queued]
    rcases eq_or_ne m c with rfl | hmc
    · rw [afterAnnounce_next, Function.update_self]
      cases full <;> rfl
    · rw [Function.update_of_ne hmc]
      rcases eq_or_ne m n with rfl | hmn
      · rw [afterAnnounce_self (ho.ne hN), Function.update_self]
        rfl
      · rw [afterAnnounce_other hmn hmc, Function.update_of_ne hmn, h.queued]
  phase m φ hφ := by
    rw [hu.phase]
    rcases eq_or_ne m c with rfl | hmc
    · rw [afterAnnounce_next] at hφ
      cases full <;> cases hφ
      simp
    · have hmn : m ≠ n := by
        rintro rfl
        simp [afterAnnounce_self (ho.ne hN), Stage.phase?] at hφ
      rw [afterAnnounce_other hmn hmc] at hφ
      rw [← h.phase m φ hφ]
      split
      · exact Function.update_of_ne hmc ..
      · rfl
  link {m q y} hm hq hy := by
    rcases eq_or_ne m c with rfl | hmc
    · exact h.link_announced_next hN hstage ho hu hfull hq hy
    · exact h.link_announced_other hN hstage ho hu hm hmc hq hy
  ready m hm hw := by
    rcases eq_or_ne m c with rfl | hmc
    · rw [hu.ready_self, hu.counted,
        countP_update (hN.nodup m) ho.input ho.fresh, h.ready m hm ho.waiting]
    · rw [hu.ready m hmc, h.ready m hm (waiting_of_afterAnnounce (ho.ne hN) hmc hw)]
      exact List.countP_congr fun q hq => by rw [ho.counted_other hN hu hmc hq]
  pending m hm hw := by
    rcases eq_or_ne m c with rfl | hmc
    · cases full with
      | false =>
          obtain ⟨q, hq, hfalse⟩ := List.all_eq_false.mp hfull.symm
          exact ⟨q, hq, by simpa using hfalse⟩
      | true => simp [afterAnnounce_next] at hw
    · obtain ⟨q, hq, hfalse⟩ :=
        h.pending m hm (waiting_of_afterAnnounce (ho.ne hN) hmc hw)
      exact ⟨q, hq, (ho.counted_other hN hu hmc hq).trans hfalse⟩
  short m hm hmK hw := by
    rcases eq_or_ne m c with rfl | hmc
    · exact h.short m hm hmK (by simp [ho.waiting, Stage.isShort])
    · refine h.short m hm hmK ?_
      rcases eq_or_ne m n with rfl | hmn
      · rw [afterAnnounce_self (ho.ne hN)] at hw
        simpa [hstage, Stage.isShort] using hw
      · rwa [afterAnnounce_other hmn hmc] at hw
  frame := hu.slot ▸ h.frame
  tally := by
    refine h.tally_of_same hu.processor ?_
    rcases eq_or_ne K c with rfl | hKc
    · rw [afterAnnounce_next, ho.waiting]
      cases full <;> simp
    · rw [afterAnnounce_other (h.ne_sink_of_announcing hstage).symm hKc]

end Announce

/-! ### All turns -/

/-- A turn of `n` takes `n` a turn further, and no other node. -/
structure Advances (stage stage' : NodeId → Stage)
    (n : NodeId) (v : FlowTurn (Adapter τ)) : Prop where
  failure : v.failure = none
  turns : (stage' n).turns = (stage n).turns + 1
  sides : (stage' n).sides = (stage n).sides ++ v.callback.toList.map (·.side)
  node : ∀ call ∈ v.callback.toList, call.node = n
  others : ∀ m ≠ n, (stage' m).turns = (stage m).turns ∧
    (stage' m).sides = (stage m).sides

/-- The adapter of the sink is a sink. -/
lemma exists_sink (h : N.Demand K T s stage t) {x : Adapter τ}
    (hx : t.processor K = some x) : ∃ snk, x = .sink snk := by
  obtain ⟨-, snk, -, hsnk, -⟩ := h.tally
  exact ⟨snk, Option.some.inj (hx.symm.trans hsnk)⟩

/-- A node that has to check its inputs has some. -/
lemma inputs_ne_nil (h : N.Demand K T s stage t) (hstage : stage n = .checking)
    {x : Adapter τ} (hx : t.processor n = some x) (hsuits : N.Suits n x) :
    N.inputs n ≠ [] := by
  rcases eq_or_ne n K with rfl | hK
  · obtain ⟨snk, rfl⟩ := h.exists_sink hx
    obtain ⟨⟨p, hp⟩, -⟩ := hsuits
    simp [hp]
  · have hn : n ∈ T := h.mem_of_phase (by rw [hstage]; rfl)
    obtain ⟨p, hp, -⟩ := h.short n hn hK (by simp [hstage, Stage.isShort])
    exact List.ne_nil_of_mem hp

/-- A node that only waits announces nothing. -/
lemma checkOut_eq_self (hN : N.Proper) (hT : N.Above K T)
    (h : N.Demand K T s stage t) (hn : n ∈ T) {x : Adapter τ}
    (hx : t.processor n = some x) (hsuits : N.Suits n x) (hstage : stage n = .waiting) :
    N.checkOut n t = t := by
  rcases eq_or_ne n K with rfl | hK
  · obtain ⟨snk, rfl⟩ := h.exists_sink hx
    simp [checkOut, targets, hsuits.2, List.reduceOption]
  · obtain ⟨c, p, ho⟩ := h.exists_outlet hN hT hsuits hn hK (by simp [hstage])
      (by simp [hstage])
    have hneed := ho.status h (by simp [hstage, Stage.isOpen])
    have hnew : N.isNew t p = false := by
      simp [isNew, Flow.full, Slot.hasData, hneed]
    rw [checkOut, targets_of_outputs ho.output, List.foldl_cons, List.foldl_nil]
    refine N.announce_eq_self hN ho.input hnew ?_ ?_
    · obtain ⟨q, hq, hfalse⟩ := h.pending c ho.mem ho.waiting
      have hlt : (N.inputs c).countP t.counted < (N.inputs c).length :=
        List.countP_lt_length_iff.mpr ⟨q, hq, by simp [hfalse]⟩
      rw [completes, readyAfter, hnew, h.ready c ho.mem ho.waiting,
        hT.required c ho.mem (List.ne_nil_of_mem ho.input)]
      simp only [Bool.false_eq_true, if_false, decide_eq_false_iff_not]
      omega
    · rw [h.queued, ho.waiting]
      rfl

/-- An announcement completes the count of the node that hears it exactly if all inputs
of that node are counted then. -/
lemma completes_eq_all (hN : N.Proper) (hT : N.Above K T) (h : N.Demand K T s stage t)
    {c : NodeId} {p : PortId} (ho : Outlet N T s stage t n c p) (hnew : N.isNew t p = true)
    {full : Bool} {u : Flow (Adapter τ)} (hu : Announced n c p full t u) :
    N.completes t c p = (N.inputs c).all u.counted := by
  have hcount := countP_update (hN.nodup c) ho.input ho.fresh
  rw [← h.ready c ho.mem ho.waiting, ← hu.counted] at hcount
  rw [completes, readyAfter, hnew, if_pos rfl, ← hcount,
    hT.required c ho.mem (List.ne_nil_of_mem ho.input), Bool.eq_iff_iff,
    decide_eq_true_iff, List.all_eq_true, ← List.countP_eq_length]
  exact ⟨fun hc => hc.2, fun hc => ⟨List.length_pos_of_mem ho.input, hc⟩⟩

/-- A node above the sink has an adapter. -/
lemma exists_processor {d : Description} (hN : d.Realized N) (hT : N.Above K T)
    (h : N.Demand K T s stage t) (hd : d.Staffed t) (hn : n ∈ T) :
    ∃ x, t.processor n = some x ∧ N.Suits n x := by
  rcases hspec : d.nodes[n.index]? with _ | spec
  · exfalso
    rcases eq_or_ne n K with rfl | hK
    · obtain ⟨-, snk, -, hx, -⟩ := h.tally
      simp [hd.outside hspec] at hx
    · obtain ⟨c, -, p, hp, hf⟩ := hT.exists_feeds hn hK
      have := (hN.proper.feeder hp n).mp hf
      simp [targets, (hN.outside hspec).2] at this
  · obtain ⟨x, hx, -⟩ := hd.kind hspec
    exact ⟨x, hx, hd.suits hN hx⟩

/-- Only the node whose turn it is gets further by a call. -/
lemma advances_call {next : Stage} {v : FlowTurn (Adapter τ)} {side : Side}
    {verdict : Verdict} (hfailure : v.failure = none)
    (hcall : v.callback = some ⟨n, side, .ok verdict⟩)
    (hturns : next.turns = (stage n).turns + 1)
    (hsides : next.sides = (stage n).sides ++ [side]) :
    Advances stage (Function.update stage n next) n v where
  failure := hfailure
  turns := by rw [Function.update_self, hturns]
  sides := by
    rw [Function.update_self, hsides, hcall]
    rfl
  node := by simp [hcall]
  others m hm := by simp [hm]

/-- The turn of a node above the sink that has to check its inputs. -/
lemma turn_checking (hN : N.Proper) (hT : N.Above K T) (h : N.Demand K T s stage t)
    (hstage : stage n = .checking) {x : Adapter τ} (hx : t.processor n = some x)
    (hsuits : N.Suits n x) {v : FlowTurn (Adapter τ)} (hv : N.Serves (some K) n t v) :
    ∃ stage', N.Demand K T s stage' v.flow ∧ Advances stage stage' n v := by
  have hn : n ∈ T := h.mem_of_phase (by rw [hstage]; rfl)
  have hu := checked hN (some K) n t
  have hnext := h.check hN hT hn hstage (h.inputs_ne_nil hstage hx hsuits) hu
  rw [hv.eq_check (h.phase n _ (by rw [hstage]; rfl)) (hT.demandsNothing hn),
    hnext.checkOut_eq_self hN hT hn (by rw [hu.processor, hx]) hsuits afterCheck_self]
  refine ⟨_, hnext, rfl, ?_, ?_, by simp, fun m hm => ?_⟩
  · rw [afterCheck_self, hstage]
    rfl
  · rw [afterCheck_self, hstage]
    rfl
  · rw [afterCheck, if_neg hm]
    split
    · rename_i ha
      rw [(h.of_asksIn hn hstage ha).2]
      exact ⟨rfl, rfl⟩
    · exact ⟨rfl, rfl⟩

/-- The turn of a node above the sink that made output. -/
lemma turn_announcing (hN : N.Proper) (hT : N.Above K T) (h : N.Demand K T s stage t)
    {b : Bool} (hstage : stage n = .announcing b) {x : Adapter τ} (hsuits : N.Suits n x)
    {v : FlowTurn (Adapter τ)} (hv : N.Serves (some K) n t v) :
    ∃ stage', N.Demand K T s stage' v.flow ∧ Advances stage stage' n v := by
  have hn : n ∈ T := h.mem_of_phase (by rw [hstage]; rfl)
  obtain ⟨c, p, ho⟩ := h.exists_outlet hN hT hsuits hn (h.ne_sink_of_announcing hstage)
    (by simp [hstage]) (by simp [hstage])
  have hnew : N.isNew t p = true := by
    simp [isNew, hT.plain c ho.mem p ho.input, ho.fresh, Flow.full, Slot.hasData,
      ho.status_announcing h hstage]
  have hu := announced hN n ho.input hnew
  have hcheck : N.checkOut n (t.dequeue n).countTurn =
      N.announce (t.dequeue n).countTurn p := by
    rw [checkOut, targets_of_outputs ho.output, List.foldl_cons, List.foldl_nil]
  rw [hv.eq_announce (h.phase n _ (by rw [hstage]; rfl)), hcheck]
  refine ⟨_, h.announce hN hstage ho hu (h.completes_eq_all hN hT ho hnew hu), rfl, ?_, ?_,
    by simp, fun m hm => ?_⟩
  · rw [afterAnnounce_self (ho.ne hN), hstage]
    cases b <;> rfl
  · rw [afterAnnounce_self (ho.ne hN), hstage]
    cases b <;> rfl
  · rcases eq_or_ne m c with rfl | hmc
    · rw [afterAnnounce_next, ho.waiting]
      cases N.completes t m p <;> exact ⟨rfl, rfl⟩
    · rw [afterAnnounce_other hm hmc]
      exact ⟨rfl, rfl⟩

/-- Every turn takes the node whose turn it is to its next stage, and none
fails. -/
theorem turn [Processor τ] {d : Description} (hN : d.Realized N)
    (hT : N.Above K T) (h : N.Demand K T s stage t) (hsound : d.Sound N t)
    (hqueued : t.queued n = true) :
    ∃ stage', N.Demand K T s stage' (N.serve (some K) n t).flow ∧
      Advances stage stage' n (N.serve (some K) n t) := by
  have hsuits : ∀ x, t.processor n = some x → N.Suits n x :=
    fun x hx => hsound.staffed.suits hN hx
  have hwhole : ∀ x pool p, t.processor n = some x → x.pool? = some pool →
      N.outputs n = [some p] → (pool.recycle (t.slot p).buffer).Whole :=
    fun _ _ _ => hsound.whole
  obtain ⟨φ, hφ⟩ := Option.isSome_iff_exists.mp (h.queued n ▸ hqueued)
  obtain ⟨x, hx, hsx⟩ := h.exists_processor hN hT hsound.staffed (h.mem_of_phase hφ)
  have hserves := serves hN.proper (some K) hx hsx
  generalize N.serve (some K) n t = v at hserves
  cases hstage : stage n with
  | untouched | waiting | settled | served => simp [hstage, Stage.phase?] at hφ
  | asked =>
      obtain ⟨next, verdict, hnext, hf, hc, hd⟩ :=
        h.turn_asked hN.proper hT hstage hsuits hwhole hserves
      refine ⟨_, hd, advances_call hf hc ?_ ?_⟩ <;>
        rcases hnext with rfl | rfl <;> rw [hstage] <;> rfl
  | checking => exact h.turn_checking hN.proper hT hstage hx hsx hserves
  | loaded =>
      rcases eq_or_ne n K with rfl | hK
      · obtain ⟨verdict, hf, hc, hd⟩ :=
          h.turn_sink hN.proper hT hstage hsuits hserves
        exact ⟨_, hd, advances_call hf hc (by rw [hstage]; rfl)
          (by rw [hstage]; rfl)⟩
      · obtain ⟨verdict, hf, hc, hd⟩ :=
          h.turn_loaded hN.proper hT hstage hK hsuits hwhole hserves
        exact ⟨_, hd, advances_call hf hc (by rw [hstage]; rfl)
          (by rw [hstage]; rfl)⟩
  | announcing b => exact h.turn_announcing hN.proper hT hstage hsx hserves

end Demand

end MediaGraph.Network

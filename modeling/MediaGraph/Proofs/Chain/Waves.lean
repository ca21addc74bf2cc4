/-
Activations of a chain.

* `Network.Line`: a source, mixers and a sink, in which every node hands its
  output to the next one;
* `Line.down`: data travels down to the sink, which consumes it;
* `Line.up`: demand travels up to the source, unless this is the driver;
* `Line.forced`: a pull of the sink is demand and then data, a push of the source
  is data and then demand, and in both cases nobody waits in the end;
* `Line.exists_forced`: there is no end to the turns if the sink asks for data
  while the driver is none of these nodes.
-/
import MediaGraph.Proofs.Chain.Turns

namespace MediaGraph

/-- The end from which a chain is activated: a pull starts from the sink and a
push from the source. -/
def Mode.driver (S K : NodeId) : Mode → NodeId
  | .pull => K
  | .push => S

@[simp] lemma Mode.driver_pull (S K : NodeId) : Mode.pull.driver S K = K := rfl

@[simp] lemma Mode.driver_push (S K : NodeId) : Mode.push.driver S K = S := rfl

lemma Description.isSink_of_kind? {d : Description} {K : NodeId}
    (h : d.kind? K = some .sink) : d.isSink K = true := by
  obtain ⟨spec, hspec, hk⟩ := Option.map_eq_some_iff.mp h
  exact isSink_iff.mpr ⟨spec, hspec, hk⟩

namespace Network

variable {τ : Type} {d : Description} {N : Network} {D : Option NodeId}
  {s : Flow (Adapter τ)} {n x y S K : NodeId} {p : PortId}
  {mixers l : List NodeId}

/-! ### Chains -/

/-- A source that is not asynchronous, mixers, and a sink, in which every node
hands its output to the next one. -/
structure Line (d : Description) (N : Network) (D : Option NodeId) (S : NodeId)
    (mixers : List NodeId) (K : NodeId) : Prop where
  hands : (S :: (mixers ++ [K])).IsChain fun x y => ∃ p, N.Hands D x y p
  source : d.kind? S = some .source
  mixer : ∀ m ∈ mixers, d.kind? m = some .mixer
  sink : d.kind? K = some .sink
  sync : N.async S = false
  asymm : ∀ {x y}, N.Feeds x y → ¬ N.Feeds y x

/-- A node of a chain is related to the next one. -/
lemma exists_rel_of_isChain {α : Type*} {R : α → α → Prop} {a b : α} {l : List α}
    (h : (a :: (l ++ [b])).IsChain R) : ∃ c ∈ l ++ [b], R a c := by
  rcases l with _ | ⟨c, l⟩
  · exact ⟨b, by simp, (List.isChain_cons_cons.mp h).1⟩
  · exact ⟨c, by simp, (List.isChain_cons_cons.mp h).1⟩

/-- Every node of a chain but the first one is related to the one before it. -/
lemma exists_rel_of_mem_isChain {α : Type*} {R : α → α → Prop} {a b : α} {l : List α}
    (h : (a :: l).IsChain R) (hb : b ∈ l) : ∃ c, R c b := by
  induction l generalizing a with
  | nil => simp at hb
  | cons c l ih =>
      obtain ⟨hac, hl⟩ := List.isChain_cons_cons.mp h
      rcases List.mem_cons.mp hb with rfl | hb
      · exact ⟨a, hac⟩
      · exact ih hl hb

/-- A mixer that hands on data. -/
def handing (m : NodeId) : Callback := ⟨m, .input, .ok .haveOutput⟩

/-- A mixer that asks for data. -/
def asking (m : NodeId) : Callback := ⟨m, .output, .ok .needInput⟩

/-- A source that leaves a buffer. -/
def producing (S : NodeId) : Callback := ⟨S, .output, .ok .haveOutput⟩

/-- A sink that consumes a buffer. -/
def consuming (K : NodeId) : Callback := ⟨K, .input, .ok .needInput⟩

variable [Processor τ]

/-! ### Down and up a chain -/

/-- Data that waits in the output of `x` travels down to the sink. -/
lemma Steady.down (hN : d.Realized N)
    (hl : (x :: (l ++ [K])).IsChain fun x y => ∃ p, N.Hands D x y p)
    (hmixer : ∀ m ∈ l, d.kind? m = some .mixer ∧ D ≠ some m)
    (hK : d.kind? K = some .sink) (hx : (d.kind? x).isSome = true)
    (ho : N.outputs x = [some p]) (h : Steady d N (some p) none s)
    (hn : s.Only x .checkOutput) {snk : Sink}
    (hsnk : s.processor K = some (.sink snk)) :
    ∃ t, N.Forced D s (2 * l.length + 2) (l.map handing ++ [consuming K]) t ∧
      Steady d N none none t ∧ (∀ m ∈ l ++ [K], N.Heard t m) ∧
      (∀ m, t.queued m = decide (m = K ∧ D ≠ some K)) ∧
      t.phase K = .checkInput ∧
      ∃ snk', t.processor K = some (.sink snk') ∧
        snk'.received = snk.received + 1 := by
  induction l generalizing x p s with
  | nil =>
      obtain ⟨q, hxK⟩ := List.isChain_cons_cons.mp hl |>.1
      obtain rfl : p = q := by simpa [hxK.outputs, eq_comm] using ho
      obtain ⟨t, hst, ht, hnt⟩ := h.announce (D := D) hN hxK hx hn
      have hsnk := (hst.processor_eq (K := K) hN h.sound.staffed (by simp)).trans hsnk
      obtain ⟨u, htu, hu, hheard, hrest⟩ := ht.consume (D := D) hN hK hxK hnt hsnk
      exact ⟨u, hst.trans htu, hu, by simpa using hheard, hrest⟩
  | cons y l ih =>
      obtain ⟨⟨q, hxy⟩, hl⟩ := List.isChain_cons_cons.mp hl
      obtain rfl : p = q := by simpa [hxy.outputs, eq_comm] using ho
      obtain ⟨hy, hD⟩ := hmixer y (by simp)
      obtain ⟨z, -, r, hyz⟩ := exists_rel_of_isChain hl
      obtain ⟨t, hst, ht, hnt⟩ := h.announce (D := D) hN hxy hx hn
      have hpr : p ≠ r := by
        rintro rfl
        exact hN.proper.not_mem_inputs (n := y) (by simp [hyz.targets]) hxy.mem_inputs
      obtain ⟨u, htu, hu, hqueued, hphase, hheard⟩ := ht.mix hN hy hxy.toJoins
        hyz.toJoins .input (by simp) (Or.inr ⟨rfl, rfl⟩) hnt
        (by simpa using ht.full hxy.mem_inputs hxy.optional)
        (by simpa [hpr] using ht.full hyz.mem_inputs hyz.optional)
      have hnu : u.Only y .checkOutput := ⟨by simpa [hD] using hqueued, hphase⟩
      have hsu := hst.trans htu
      have hyK : y ≠ K := by
        rintro rfl
        simp [hy] at hK
      obtain ⟨v, huv, hv, hheard', hrest⟩ := ih hl (fun m hm => hmixer m (by simp [hm]))
        (by rw [hy]; rfl) hyz.outputs hu hnu
        ((hsu.processor_eq (K := K) hN h.sound.staffed (by simpa using hyK)).trans hsnk)
      refine ⟨v, ?_, hv, fun m hm => ?_, hrest⟩
      · rw [List.length_cons,
          show 2 * (l.length + 1) + 2 = 1 + 1 + (2 * l.length + 2) by omega]
        exact hsu.trans huv
      · rcases List.mem_cons.mp hm with rfl | hm
        · exact huv.heard hN hu.sound hheard
        · exact hheard' m hm

/-- Demand of `y` travels up to the source, unless this is the driver. -/
lemma Steady.up (hN : d.Realized N)
    (hl : (y :: (l ++ [S])).IsChain fun y x => ∃ p, N.Hands D x y p)
    (hasymm : ∀ {x y}, N.Feeds x y → ¬ N.Feeds y x)
    (hmixer : ∀ m ∈ l, d.kind? m = some .mixer ∧ D ≠ some m)
    (hS : N.async S = false) (hy : (d.kind? y).isSome = true)
    (h : Steady d N none none s) (hn : s.Only y .checkInput) (hneed : N.Heard s y) :
    ∃ t, N.Forced D s (2 * l.length + 1) (l.map asking) t ∧
      Steady d N none none t ∧ (∀ m ∈ y :: l, N.Heard t m) ∧
      (∀ m, t.queued m = decide (m = S ∧ D ≠ some S)) ∧
      (D ≠ some S → t.phase S = .output) := by
  induction l generalizing y s with
  | nil =>
      obtain ⟨p, hSy⟩ := List.isChain_cons_cons.mp hl |>.1
      have hback := hasymm (hSy.feeds hN.proper)
      obtain ⟨t, hst, ht, hqueued, hphase⟩ :=
        h.check hN hSy.toJoins hback hy hn (h.needs hSy hneed)
      refine ⟨t, hst, ht, ?_, fun m => ?_, hphase⟩
      · simpa using hst.heard hN h.sound hneed
      · simp [hqueued, hS]
  | cons x l ih =>
      obtain ⟨⟨p, hxy⟩, hl⟩ := List.isChain_cons_cons.mp hl
      obtain ⟨hx, hD⟩ := hmixer x (by simp)
      obtain ⟨w, -, q, hwx⟩ := exists_rel_of_isChain hl
      have hback := hasymm (hxy.feeds hN.proper)
      obtain ⟨t, hst, ht, hqueued, hphase⟩ :=
        h.check hN hxy.toJoins hback hy hn (h.needs hxy hneed)
      have hnt : t.Only x .output := ⟨fun m => by simp [hqueued, hD], hphase hD⟩
      obtain ⟨u, htu, hu, hnu, hstatus, -⟩ := ht.request hN hx hwx.toJoins hxy.toJoins
        (Or.inl hwx.optional) hnt (by simpa using ht.full hwx.mem_inputs hwx.optional)
        (by simpa using ht.full hxy.mem_inputs hxy.optional)
      have hheard := hwx.heard hstatus
      have hsu := hst.trans htu
      obtain ⟨v, huv, hv, hheard', hrest⟩ := ih hl (fun m hm => hmixer m (by simp [hm]))
        (by rw [hx]; rfl) hu hnu hheard
      refine ⟨v, ?_, hv, fun m hm => ?_, hrest⟩
      · rw [List.length_cons,
          show 2 * (l.length + 1) + 1 = 1 + 1 + (2 * l.length + 1) by omega]
        exact hsu.trans huv
      · rcases List.mem_cons.mp hm with rfl | hm
        · exact (hsu.trans huv).heard hN h.sound hneed
        · exact hheard' m hm

/-! ### Pulls and pushes -/

omit [Processor τ] in
/-- An activation starts with its driver as the only node that waits. -/
lemma Steady.start (h : Steady d N none none s) (hnone : ∀ m, s.queued m = false)
    (mode : Mode) (n : NodeId) :
    Steady d N none none (s.start mode n) ∧ (s.start mode n).Only n mode.phase := by
  refine ⟨⟨h.sound.congr rfl rfl, h.full, h.ready, h.counted⟩, fun m => ?_, ?_⟩
  · change Function.update s.queued n true m = _
    rw [Function.update_apply, hnone]
    by_cases hm : m = n <;> simp [hm]
  · exact Function.update_self ..

/-- The calls of an activation of a chain. -/
def chainCalls (S : NodeId) (mixers : List NodeId) (K : NodeId) :
    Mode → List Callback
  | .pull => mixers.reverse.map asking ++
      ([producing S] ++ (mixers.map handing ++ [consuming K]))
  | .push => [producing S] ++ (mixers.map handing ++ [consuming K]) ++
      mixers.reverse.map asking

namespace Line

omit [Processor τ] in
lemma isSink (h : Line d N D S mixers K) : d.isSink K = true :=
  Description.isSink_of_kind? h.sink

omit [Processor τ] in
/-- The source hands its output to some node. -/
lemma exists_hands_source (h : Line d N D S mixers K) : ∃ y p, N.Hands D S y p := by
  obtain ⟨y, -, p, hSy⟩ := exists_rel_of_isChain h.hands
  exact ⟨y, p, hSy⟩

omit [Processor τ] in
/-- Every node but the source is handed the output of another one. -/
lemma exists_hands (h : Line d N D S mixers K) {m : NodeId}
    (hm : m ∈ mixers ++ [K]) : ∃ x p, N.Hands D x m p :=
  exists_rel_of_mem_isChain h.hands hm

omit [Processor τ] in
/-- Every node up the chain is handed the output of the next one. -/
lemma hands_reverse (h : Line d N D S mixers K) :
    (K :: (mixers.reverse ++ [S])).IsChain fun y x => ∃ p, N.Hands D x y p := by
  have := List.isChain_reverse.mpr h.hands
  simpa using this

omit [Processor τ] in
/-- The ends of a chain differ from each other and from its mixers. -/
lemma ne_ends (h : Line d N D S mixers K) :
    S ≠ K ∧ ∀ m ∈ mixers, m ≠ S ∧ m ≠ K := by
  refine ⟨?_, fun m hm => ⟨?_, ?_⟩⟩
  · rintro rfl
    simpa [h.source] using h.sink
  · rintro rfl
    simpa [h.mixer m hm] using h.source
  · rintro rfl
    simpa [h.mixer m hm] using h.sink

omit [Processor τ] in
/-- The sink asks for data unless it has some. -/
lemma heard_sink (h : Line d N D S mixers K) (hN : d.Realized N)
    (hs : d.Sound N s) : N.Heard s K := by
  obtain ⟨x, q, hxK⟩ := h.exists_hands (m := K) (by simp)
  intro r hr ho
  obtain rfl := hxK.eq_of_optional hr ho
  exact hs.demanding h.isSink hr (by rw [hxK.feeder hN.proper]; rfl)

/-- When the source is asked, a buffer travels down to the sink. -/
lemma down (h : Line d N D S mixers K) (hN : d.Realized N)
    (hD : ∀ m ∈ mixers, D ≠ some m) (hs : Steady d N none none s)
    (hn : s.Only S .output) {snk : Sink} (hsnk : s.processor K = some (.sink snk)) :
    ∃ t, N.Forced D s (2 * mixers.length + 3)
        ([producing S] ++ (mixers.map handing ++ [consuming K])) t ∧
      Steady d N none none t ∧ (∀ m ∈ mixers ++ [K], N.Heard t m) ∧
      (∀ m, t.queued m = decide (m = K ∧ D ≠ some K)) ∧
      t.phase K = .checkInput ∧
      ∃ snk', t.processor K = some (.sink snk') ∧
        snk'.received = snk.received + 1 := by
  obtain ⟨y, p, hSy⟩ := h.exists_hands_source
  obtain ⟨t, hst, ht, hnt⟩ := hs.produce (D := D) hN h.source hSy.outputs hn
  have hsnk' := (hst.processor_eq (K := K) hN hs.sound.staffed
    (by simpa using h.ne_ends.1)).trans hsnk
  obtain ⟨u, htu, hu⟩ := ht.down hN h.hands (fun m hm => ⟨h.mixer m hm, hD m hm⟩)
    h.sink (by rw [h.source]; rfl) hSy.outputs hnt hsnk'
  refine ⟨u, ?_, hu⟩
  rw [show 2 * mixers.length + 3 = 1 + (2 * mixers.length + 2) by omega]
  exact hst.trans htu

/-- When the sink asks for data, demand travels up to the source. -/
lemma up (h : Line d N D S mixers K) (hN : d.Realized N)
    (hD : ∀ m ∈ mixers, D ≠ some m) (hs : Steady d N none none s)
    (hn : s.Only K .checkInput) :
    ∃ t, N.Forced D s (2 * mixers.length + 1) (mixers.reverse.map asking) t ∧
      Steady d N none none t ∧ (∀ m ∈ mixers ++ [K], N.Heard t m) ∧
      (∀ m, t.queued m = decide (m = S ∧ D ≠ some S)) ∧
      (D ≠ some S → t.phase S = .output) ∧ t.processor K = s.processor K := by
  obtain ⟨t, hst, ht, hheard, hqueued, hphase⟩ := hs.up hN h.hands_reverse h.asymm
    (fun m hm => ⟨h.mixer m (List.mem_reverse.mp hm), hD m (List.mem_reverse.mp hm)⟩)
    h.sync (by rw [h.sink]; rfl) hn (h.heard_sink hN hs.sound)
  rw [List.length_reverse] at hst
  refine ⟨t, hst, ht, fun m hm => hheard m ?_, hqueued, hphase, ?_⟩
  · simpa [or_comm] using hm
  · refine hst.processor_eq hN hs.sound.staffed fun call hcall => ?_
    obtain ⟨m, hm, rfl⟩ := List.mem_map.mp hcall
    exact (h.ne_ends.2 m (List.mem_reverse.mp hm)).2

/-- A chain at rest that is activated takes four turns for each mixer and four
more. Its sink consumes one buffer, nobody waits in the end, and all links ask
for data. -/
theorem forced {mode : Mode} (h : Line d N (some (mode.driver S K)) S mixers K)
    (hN : d.Realized N) (hs : Steady d N none none s)
    (hnone : ∀ m, s.queued m = false) {snk : Sink}
    (hsnk : s.processor K = some (.sink snk)) :
    ∃ t, N.Forced (some (mode.driver S K)) (s.start mode (mode.driver S K))
        (4 * mixers.length + 4) (chainCalls S mixers K mode) t ∧
      Steady d N none none t ∧ (∀ m, t.queued m = false) ∧
      (∀ m ∈ mixers ++ [K], N.Heard t m) ∧
      ∃ snk', t.processor K = some (.sink snk') ∧
        snk'.received = snk.received + 1 := by
  obtain ⟨hSK, hmixers⟩ := h.ne_ends
  obtain ⟨hstart, honly⟩ := hs.start hnone mode (mode.driver S K)
  have hsnk' : (s.start mode (mode.driver S K)).processor K = some (.sink snk) :=
    hsnk
  cases mode with
  | pull =>
      simp only [Mode.driver_pull] at *
      have hD : ∀ m ∈ mixers, some K ≠ some m :=
        fun m hm => by simpa using (hmixers m hm).2.symm
      obtain ⟨t, hst, ht, -, hqueued, hphase, hK⟩ :=
        h.up hN hD hstart honly
      have hnt : t.Only S .output :=
        ⟨fun m => by simp [hqueued, hSK.symm], hphase (by simpa using hSK.symm)⟩
      obtain ⟨u, htu, hu, hheard, hqueued, -, hreceived⟩ :=
        h.down hN hD ht hnt (hK.trans hsnk')
      refine ⟨u, ?_, hu, fun m => by simp [hqueued], hheard, hreceived⟩
      rw [show 4 * mixers.length + 4 = 2 * mixers.length + 1 +
        (2 * mixers.length + 3) by omega]
      exact hst.trans htu
  | push =>
      simp only [Mode.driver_push] at *
      have hD : ∀ m ∈ mixers, some S ≠ some m :=
        fun m hm => by simpa using (hmixers m hm).1.symm
      obtain ⟨t, hst, ht, hheard, hqueued, hphase, snk₁, hsnk₁, hreceived⟩ :=
        h.down hN hD hstart honly hsnk'
      have hnt : t.Only K .checkInput := ⟨fun m => by simp [hqueued, hSK], hphase⟩
      obtain ⟨u, htu, hu, hheard, hqueued, -, hK⟩ :=
        h.up hN hD ht hnt
      refine ⟨u, ?_, hu, fun m => by simp [hqueued], hheard, snk₁, hK.trans hsnk₁,
        hreceived⟩
      rw [show 4 * mixers.length + 4 = 2 * mixers.length + 3 +
        (2 * mixers.length + 1) by omega]
      exact hst.trans htu

/-- If a chain is not activated from one of its nodes then, once its sink asks for
data, there is no end to the turns. -/
theorem exists_forced (h : Line d N D S mixers K) (hN : d.Realized N)
    (hD : ∀ m ∈ S :: (mixers ++ [K]), D ≠ some m) (hs : Steady d N none none s)
    (hn : s.Only K .checkInput) (k : ℕ) :
    ∃ j ≥ k, ∃ calls t, N.Forced D s j calls t := by
  have key : ∃ j ≥ k, ∃ calls t, N.Forced D s j calls t ∧
      Steady d N none none t ∧ t.Only K .checkInput := by
    induction k with
    | zero => exact ⟨0, le_refl 0, [], s, .refl, hs, hn⟩
    | succ k ih =>
        obtain ⟨j, hj, calls, t, hst, ht, hnt⟩ := ih
        have hmixers : ∀ m ∈ mixers, D ≠ some m := fun m hm => hD m (by simp [hm])
        obtain ⟨u, htu, hu, -, hqueued, hphase, -⟩ := h.up hN hmixers ht hnt
        have hS := hD S (by simp)
        have hnu : u.Only S .output := ⟨fun m => by simp [hqueued, hS], hphase hS⟩
        obtain ⟨snk, hsnk⟩ := hu.exists_sink h.sink
        obtain ⟨v, huv, hv, -, hqueued, hphase, -⟩ :=
          h.down hN hmixers hu hnu hsnk
        have hK := hD K (by simp)
        exact ⟨_, by omega, _, v, hst.trans (htu.trans huv), hv,
          ⟨fun m => by simp [hqueued, hK], hphase⟩⟩
  obtain ⟨j, hj, calls, t, hst, -⟩ := key
  exact ⟨j, hj, calls, t, hst⟩

end Line

end Network

end MediaGraph

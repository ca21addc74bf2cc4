/-
Activations of a chain in which inputs may be optional.

* `Network.Pipeline`: a source, mixers and a sink, in which the output of every node
  leads into the only input of the next one;
* `Network.Arrives`: data arrived at a node, or it stays in an optional input and
  nobody waits;
* `Steady.fetch`: a node that asks for data gets it from the next node above it that
  holds some, or from the source, unless an optional input lies in between;
* `Steady.stall`, `Steady.forward`: what the driver leaves in its output travels down
  to the sink exactly if no input on the way is optional;
* `Pipeline.pulled`, `Pipeline.pushed`: pulls of the sink, and pushes of the other
  nodes.
-/
import MediaGraph.Proofs.Chain.Waves

namespace MediaGraph.Network

variable {τ : Type} {d : Description} {N : Network} {D : Option NodeId}
  {s t : Flow (Adapter τ)} {held : Option PortId} {busy : Option NodeId}
  {n x y S K : NodeId} {p q : PortId}
  {mixers above below l : List NodeId}

/-! ### Chains with optional inputs -/

/-- A source, mixers and a sink, in which the output of every node leads into the only
input of the next one. -/
structure Pipeline (d : Description) (N : Network) (S : NodeId)
    (mixers : List NodeId) (K : NodeId) : Prop where
  pipes : (S :: (mixers ++ [K])).IsChain fun x y => ∃ p, N.Pipes x y p
  nodup : (S :: (mixers ++ [K])).Nodup
  source : d.kind? S = some .source
  mixer : ∀ m ∈ mixers, d.kind? m = some .mixer
  sink : d.kind? K = some .sink
  asymm : ∀ {x y}, N.Feeds x y → ¬ N.Feeds y x

/-- Data is about to be processed in the input `p` of `y`, or nobody waits, since it
stays in an optional input. -/
inductive Arrives (d : Description) (N : Network) (y : NodeId) (p : PortId)
    (t : Flow (Adapter τ)) : Prop
  | fed : N.optional p = false → Steady d N (some p) (some y) t → t.Only y .input →
      Arrives d N y p t
  | stuck : Steady d N none none t → (∀ m, t.queued m = false) → Arrives d N y p t

/-- No input of these nodes is optional. -/
def Unbroken (N : Network) (l : List NodeId) : Prop :=
  ∀ m ∈ l, ∀ p ∈ N.inputs m, N.optional p = false

lemma Pipes.unbroken_cons (h : N.Pipes x y p) :
    N.Unbroken (y :: l) ↔ N.optional p = false ∧ N.Unbroken l := by
  simp [Unbroken, h.inputs]

/-- The sink `K`, which was `snk`, got one buffer if `P` holds and none otherwise. -/
def Gets (K : NodeId) (snk : Sink) (P : Prop) (t : Flow (Adapter τ)) : Prop :=
  ∃ snk', t.processor K = some (.sink snk') ∧
    (P → snk'.received = snk.received + 1) ∧ (¬ P → snk' = snk)

lemma Gets.congr {snk : Sink} {P Q : Prop} (h : Gets K snk P t) (hPQ : P ↔ Q) :
    Gets K snk Q t := by
  rwa [← propext hPQ]

lemma Gets.of_not {snk : Sink} {P : Prop} (h : t.processor K = some (.sink snk))
    (hP : ¬ P) : Gets K snk P t :=
  ⟨snk, h, fun hc => absurd hc hP, fun _ => rfl⟩

variable [Processor τ]

/-! ### Fetching data -/

/-- Turns without a call of the nodes at its ends leave a link alone. -/
lemma Pipes.slot_eq (hN : d.Realized N) (hxy : N.Pipes x y p) {k : ℕ}
    {calls : List Callback} (hst : N.Forced D s k calls t) (hs : d.Staffed s)
    (hcalls : ∀ call ∈ calls, call.node ≠ x ∧ call.node ≠ y) :
    t.slot p = s.slot p := by
  have hp : p ∈ N.inputs y := by simp [hxy.inputs]
  refine hst.slot_eq hN hs fun call hcall => ⟨fun hin => ?_, fun hout => ?_⟩
  · exact (hcalls call hcall).2 (hN.proper.owner_unique hin hp)
  · have hfeeder := (hN.proper.feeder hp call.node).mpr hout
    rw [(hxy.joins D).feeder hN.proper] at hfeeder
    exact (hcalls call hcall).1 (Option.some.inj hfeeder).symm

/-- Data in the output of `x` arrives at `y` if the input of `y` is not optional. -/
lemma Steady.offer (hN : d.Realized N) (hxy : N.Pipes x y p)
    (h : Steady d N (some p) none s) (hx : (d.kind? x).isSome = true)
    (hn : s.Only x .checkOutput) :
    ∃ t, N.Forced D s 1 [] t ∧ Arrives d N y p t := by
  cases ho : N.optional p with
  | false =>
      obtain ⟨t, hst, ht, hnt⟩ := h.announce hN (hxy.hands ho D) hx hn
      exact ⟨t, hst, .fed ho ht hnt⟩
  | true =>
      obtain ⟨t, hst, ht, hnone⟩ := h.shelve hN (hxy.joins D) ho hx hn
      exact ⟨t, hst, .stuck (ht.forget ho) hnone⟩

/-- What a mixer makes of the data in its input arrives at the next node. -/
lemma Steady.relay (hN : d.Realized N) (hx : d.kind? x = some .mixer) (hD : D ≠ some x)
    {w : NodeId} (hwx : N.Pipes w x q) (hxy : N.Pipes x y p) (side : Side)
    (h : Steady d N held busy s) (hheld : ∀ r, held = some r → r = q)
    (hbusy : busy = none ∨ busy = some x ∧ side = .input) (hn : s.Only x side.phase)
    (hq : (s.slot q).hasData = true) (hp : (s.slot p).hasData = false) :
    ∃ t, N.Forced D s 2 [⟨x, side, .ok .haveOutput⟩] t ∧ Arrives d N y p t := by
  obtain ⟨t, hst, ht, hqueued, hphase, -⟩ :=
    h.mix hN hx (hwx.joins D) (hxy.joins D) side hheld hbusy hn hq hp
  have hnt : t.Only x .checkOutput := ⟨by simpa [hD] using hqueued, hphase⟩
  obtain ⟨u, htu, hu⟩ := ht.offer (D := D) hN hxy (by rw [hx]; rfl) hnt
  exact ⟨u, hst.trans htu, hu⟩

/-- Demand of `y` travels up the chain to the next mixer that holds data, or to the
source, and what it makes of it travels down again. -/
theorem Steady.fetch (hN : d.Realized N)
    (hl : (y :: (l ++ [S])).IsChain fun y x => ∃ p, N.Pipes x y p)
    (hnodup : (y :: (l ++ [S])).Nodup)
    (hasymm : ∀ {x y}, N.Feeds x y → ¬ N.Feeds y x)
    (hmixer : ∀ m ∈ l, d.kind? m = some .mixer) (hS : d.kind? S = some .source)
    (hD : ∀ m ∈ l ++ [S], D ≠ some m) (hy : (d.kind? y).isSome = true)
    (h : Steady d N none none s) (hn : s.Only y .checkInput)
    (hp : p ∈ N.inputs y) (hneed : (s.slot p).status = .needData) :
    ∃ k ≤ 4 * l.length + 3, ∃ calls t, N.Forced D s k calls t ∧
      (∀ call ∈ calls, call.node ∈ l ++ [S]) ∧ Arrives d N y p t := by
  induction l generalizing y p s with
  | nil =>
      obtain ⟨p', hSy⟩ := (List.isChain_cons_cons.mp hl).1
      obtain rfl : p = p' := by simpa [hSy.inputs] using hp
      have hDS := hD S (by simp)
      obtain ⟨t, hst, ht, hqueued, hphase⟩ := h.check hN (hSy.joins D)
        (hasymm ((hSy.joins D).feeds hN.proper)) hy hn hneed
      have hnt : t.Only S .output := ⟨fun m => by simp [hqueued, hDS], hphase hDS⟩
      obtain ⟨u, htu, hu, hnu⟩ := ht.produce (D := D) hN hS hSy.outputs hnt
      obtain ⟨v, huv, hv⟩ := hu.offer (D := D) hN hSy (by rw [hS]; rfl) hnu
      exact ⟨3, by simp, _, v, hst.trans (htu.trans huv), by simp, hv⟩
  | cons x l ih =>
      obtain ⟨⟨p', hxy⟩, hl⟩ := List.isChain_cons_cons.mp hl
      obtain rfl : p = p' := by simpa [hxy.inputs] using hp
      obtain ⟨w, -, q, hwx⟩ := exists_rel_of_isChain hl
      obtain ⟨hyl, hnodup⟩ := List.nodup_cons.mp hnodup
      have hxl := (List.nodup_cons.mp hnodup).1
      have hx := hmixer x (by simp)
      have hDx := hD x (by simp)
      have hxsome : (d.kind? x).isSome = true := by rw [hx]; rfl
      obtain ⟨t, hst, ht, hqueued, hphase⟩ := h.check hN (hxy.joins D)
        (hasymm ((hxy.joins D).feeds hN.proper)) hy hn hneed
      have hnt : t.Only x .output := ⟨fun m => by simp [hqueued, hDx], hphase hDx⟩
      have hpt : (t.slot p).hasData = false := by
        rw [hst.slot_eq hN h.sound.staffed (by simp)]
        simp [Slot.hasData, hneed]
      by_cases hqt : (t.slot q).hasData = true
      · obtain ⟨u, htu, hu⟩ := ht.relay hN hx hDx hwx hxy .output (by simp)
          (Or.inl rfl) hnt hqt hpt
        exact ⟨3, by omega, _, u, hst.trans htu, by simp, hu⟩
      · obtain ⟨u, htu, hu, hnu, hneed, hdata⟩ := ht.request hN hx (hwx.joins D)
          (hxy.joins D) (Or.inr hwx.inputs) hnt (by simpa using hqt) hpt
        have hstaffed := (hst.trans htu).invariant (P := fun t => d.Staffed t)
          h.sound.staffed fun t m ht => ht.serve hN D m
        obtain ⟨k, hk, calls, v, huv, hcalls, hv⟩ := ih hl hnodup
          (fun m hm => hmixer m (by simp [hm]))
          (fun m hm => hD m (List.mem_cons_of_mem _ hm)) hxsome hu hnu
          (hwx.joins D).mem_inputs hneed
        have hsv := hst.trans (htu.trans huv)
        cases hv with
        | stuck hv hnone =>
            refine ⟨1 + (1 + k), by simp; omega, _, v, hsv, fun call hcall => ?_,
              .stuck hv hnone⟩
            rcases List.mem_cons.mp hcall with rfl | hcall
            · simp
            · exact List.mem_cons_of_mem _ (hcalls call hcall)
        | fed ho hv hnv =>
            -- the nodes above `x` did not touch its output
            have hpv : (v.slot p).hasData = false := by
              rw [hxy.slot_eq hN huv hstaffed fun call hcall => ⟨?_, ?_⟩, hdata, hpt]
              · exact fun hc => hxl (hc ▸ hcalls call hcall)
              · exact fun hc => hyl (List.mem_cons_of_mem _ (hc ▸ hcalls call hcall))
            obtain ⟨z, hvz, hz⟩ := hv.relay hN hx hDx hwx hxy .input (by simp)
              (Or.inr ⟨rfl, rfl⟩) hnv
              (by simpa using hv.full (hwx.joins D).mem_inputs ho) hpv
            refine ⟨1 + (1 + k) + 2, by simp; omega, _, z, hsv.trans hvz,
              fun call hcall => ?_, hz⟩
            simp only [List.nil_append, List.mem_append, List.mem_singleton] at hcall
            rcases hcall with (rfl | hcall) | rfl
            · simp
            · exact List.mem_cons_of_mem _ (hcalls call hcall)
            · simp

/-- A driver that asks for data does not announce what it makes of it. -/
theorem Steady.fetch_driver (hN : d.Realized N)
    (hl : (n :: (l.reverse ++ [S])).IsChain fun y x => ∃ p, N.Pipes x y p)
    (hnodup : (n :: (l.reverse ++ [S])).Nodup)
    (hasymm : ∀ {x y}, N.Feeds x y → ¬ N.Feeds y x)
    (hmixer : ∀ m ∈ l, d.kind? m = some .mixer) (hS : d.kind? S = some .source)
    (hnkind : d.kind? n = some .mixer) (hny : N.Pipes n y q)
    (h : Steady d N none none s) (hn : s.Only n .output) (hp : p ∈ N.inputs n)
    (hpempty : (s.slot p).hasData = false) (hqempty : (s.slot q).hasData = false) :
    ∃ k ≤ 4 * l.length + 5, ∃ calls t, N.Forced (some n) s k calls t ∧
      (∀ call ∈ calls, call.node ∈ n :: (l.reverse ++ [S])) ∧
      ∀ m, t.queued m = false := by
  obtain ⟨w, -, p', hwn⟩ := exists_rel_of_isChain hl
  obtain rfl : p = p' := by simpa [hwn.inputs] using hp
  have hD : ∀ m ∈ l.reverse ++ [S], some n ≠ some m := fun m hm hc =>
    (List.nodup_cons.mp hnodup).1 (Option.some.inj hc ▸ hm)
  obtain ⟨t, hst, ht, hnt, hneed, -⟩ := h.request hN hnkind (hwn.joins (some n))
    (hny.joins _) (Or.inr hwn.inputs) hn hpempty hqempty
  obtain ⟨k, hk, calls, u, htu, hcalls, hu⟩ := ht.fetch (D := some n) hN hl hnodup
    hasymm (fun m hm => hmixer m (List.mem_reverse.mp hm)) hS hD
    (by rw [hnkind]; rfl) hnt hp hneed
  rw [List.length_reverse] at hk
  have hsu := hst.trans htu
  cases hu with
  | stuck _ hnone =>
      refine ⟨1 + k, by omega, _, u, hsu, fun call hcall => ?_, hnone⟩
      rcases List.mem_cons.mp hcall with rfl | hcall
      · simp
      · exact List.mem_cons_of_mem _ (hcalls call hcall)
  | fed ho hu hnu =>
      obtain ⟨v, huv, hnone⟩ : ∃ v, N.Forced (some n) u 1
          [⟨n, .input, .ok .haveOutput⟩] v ∧ ∀ m, v.queued m = false := by
        by_cases hqu : (u.slot q).hasData = true
        · obtain ⟨v, huv, -, hqueued, -⟩ := hu.hold hN hnkind (hwn.joins (some n))
            (hny.joins _) .input (Or.inr ⟨rfl, rfl⟩) hnu hqu
          exact ⟨v, huv, by simpa using hqueued⟩
        · obtain ⟨v, huv, -, hqueued, -⟩ := hu.mix hN hnkind (hwn.joins (some n))
            (hny.joins _) .input (by simp) (Or.inr ⟨rfl, rfl⟩) hnu
            (by simpa using hu.full hp ho) (by simpa using hqu)
          exact ⟨v, huv, by simpa using hqueued⟩
      refine ⟨1 + k + 1, by omega, _, v, hsu.trans huv, fun call hcall => ?_, hnone⟩
      simp only [List.cons_append, List.nil_append, List.mem_cons, List.mem_append,
        List.not_mem_nil, or_false] at hcall
      rcases hcall with rfl | hcall | rfl
      · simp
      · exact List.mem_cons_of_mem _ (hcalls call hcall)
      · simp

/-! ### Handing data down -/

/-- Data in the output of `x` does not reach the sink if some input on the way there is
optional. -/
theorem Steady.stall (hN : d.Realized N)
    (hl : (x :: (l ++ [K])).IsChain fun x y => ∃ p, N.Pipes x y p)
    (hmixer : ∀ m ∈ l, d.kind? m = some .mixer ∧ D ≠ some m)
    (hx : (d.kind? x).isSome = true) (ho : N.outputs x = [some p])
    (hbroken : ¬ N.Unbroken (l ++ [K])) (h : Steady d N (some p) none s)
    (hn : s.Only x .checkOutput) :
    ∃ k ≤ 2 * l.length + 1, ∃ calls t, N.Forced D s k calls t ∧
      (∀ call ∈ calls, call.node ∈ l) ∧ ∀ m, t.queued m = false := by
  induction l generalizing x p s with
  | nil =>
      obtain ⟨p', hxK⟩ := (List.isChain_cons_cons.mp hl).1
      obtain rfl : p = p' := by simpa [hxK.outputs, eq_comm] using ho
      have hp : N.optional p = true := by simpa [Unbroken, hxK.inputs] using hbroken
      obtain ⟨t, hst, -, hnone⟩ := h.shelve hN (hxK.joins D) hp hx hn
      exact ⟨1, by simp, _, t, hst, by simp, hnone⟩
  | cons y l ih =>
      obtain ⟨⟨p', hxy⟩, hl⟩ := List.isChain_cons_cons.mp hl
      obtain rfl : p = p' := by simpa [hxy.outputs, eq_comm] using ho
      obtain ⟨z, -, q, hyz⟩ := exists_rel_of_isChain hl
      obtain ⟨hy, hD⟩ := hmixer y (by simp)
      have hysome : (d.kind? y).isSome = true := by rw [hy]; rfl
      cases hp : N.optional p with
      | true =>
          obtain ⟨t, hst, -, hnone⟩ := h.shelve hN (hxy.joins D) hp hx hn
          exact ⟨1, by omega, _, t, hst, by simp, hnone⟩
      | false =>
          obtain ⟨t, hst, ht, hnt⟩ := h.announce hN (hxy.hands hp D) hx hn
          have hpt : (t.slot p).hasData = true := by
            simpa using ht.full (hxy.joins D).mem_inputs hp
          by_cases hqt : (t.slot q).hasData = true
          · -- only an optional output can hold data that was not read
            have hpq : p ≠ q := by
              rintro rfl
              exact hN.proper.not_mem_inputs (n := y)
                (by simp [(hyz.joins D).targets]) (hxy.joins D).mem_inputs
            have hq := ht.optional_of_hasData (hyz.joins D).mem_inputs
              (by simpa using hpq) hqt
            obtain ⟨u, htu, hu, hqueued, hphase⟩ := ht.hold hN hy (hxy.joins D)
              (hyz.joins D) .input (Or.inr ⟨rfl, rfl⟩) hnt hqt
            have hnu : u.Only y .checkOutput := ⟨by simpa [hD] using hqueued, hphase⟩
            obtain ⟨v, huv, -, hnone⟩ := hu.shelve hN (hyz.joins D) hq hysome hnu
            exact ⟨3, by simp, _, v, hst.trans (htu.trans huv), by simp, hnone⟩
          · obtain ⟨u, htu, hu, hqueued, hphase, -⟩ := ht.mix hN hy (hxy.joins D)
              (hyz.joins D) .input (by simp) (Or.inr ⟨rfl, rfl⟩) hnt hpt
              (by simpa using hqt)
            have hnu : u.Only y .checkOutput := ⟨by simpa [hD] using hqueued, hphase⟩
            obtain ⟨k, hk, calls, v, huv, hcalls, hnone⟩ := ih hl
              (fun m hm => hmixer m (List.mem_cons_of_mem _ hm)) hysome hyz.outputs
              (fun hc => hbroken (hxy.unbroken_cons.mpr ⟨hp, hc⟩)) hu hnu
            refine ⟨1 + (1 + k), by simp; omega, _, v, hst.trans (htu.trans huv),
              fun call hcall => ?_, hnone⟩
            rcases List.mem_cons.mp hcall with rfl | hcall
            · simp
            · exact List.mem_cons_of_mem _ (hcalls call hcall)

/-- What a driver that is not asynchronous leaves in its output travels down to the
sink if no input on the way there is optional, and the demand of the sink ends at
the driver again. -/
theorem Steady.forward (hN : d.Realized N)
    (hl : (n :: (l ++ [K])).IsChain fun x y => ∃ p, N.Pipes x y p)
    (hasymm : ∀ {x y}, N.Feeds x y → ¬ N.Feeds y x)
    (hmixer : ∀ m ∈ l, d.kind? m = some .mixer ∧ n ≠ m)
    (hK : d.kind? K = some .sink) (hnK : n ≠ K) (hsync : N.async n = false)
    (hnsome : (d.kind? n).isSome = true) (ho : N.outputs n = [some p])
    (h : Steady d N (some p) none s) (hn : s.Only n .checkOutput) {snk : Sink}
    (hsnk : s.processor K = some (.sink snk)) :
    ∃ k ≤ 4 * l.length + 3, ∃ calls t, N.Forced (some n) s k calls t ∧
      (∀ m, t.queued m = false) ∧ Gets K snk (N.Unbroken (l ++ [K])) t := by
  have hlK : ∀ m ∈ l, m ≠ K := by
    rintro m hm rfl
    simp [(hmixer m hm).1] at hK
  by_cases hunbroken : N.Unbroken (l ++ [K])
  · have hhands : (n :: (l ++ [K])).IsChain fun x y => ∃ p, N.Hands (some n) x y p :=
      hl.imp_of_mem_tail_imp fun x y _ hy ⟨q, hxy⟩ =>
        ⟨q, hxy.hands (hunbroken y hy q (by simp [hxy.inputs])) _⟩
    obtain ⟨t, hst, ht, hheard, hqueued, hphase, snk', hsnk', hreceived⟩ :=
      h.down hN hhands (fun m hm => by simpa using hmixer m hm) hK hnsome ho hn hsnk
    have hnt : t.Only K .checkInput := ⟨by simpa [hnK] using hqueued, hphase⟩
    have hreverse : (K :: (l.reverse ++ [n])).IsChain
        fun y x => ∃ p, N.Hands (some n) x y p := by
      simpa using List.isChain_reverse.mpr hhands
    obtain ⟨u, htu, hu, -, hqueued, -⟩ := ht.up hN hreverse hasymm
      (fun m hm => by simpa using hmixer m (List.mem_reverse.mp hm)) hsync
      (by rw [hK]; rfl) hnt (hheard K (by simp))
    have hprocessor := htu.processor_eq (K := K) hN ht.sound.staffed fun call hcall => by
      obtain ⟨m, hm, rfl⟩ := List.mem_map.mp hcall
      exact hlK m (List.mem_reverse.mp hm)
    refine ⟨_, ?_, _, u, hst.trans htu, by simpa using hqueued, snk',
      hprocessor.trans hsnk', fun _ => hreceived, fun hc => absurd hunbroken hc⟩
    simp
    omega
  · obtain ⟨k, hk, calls, t, hst, hcalls, hnone⟩ := h.stall (D := some n) hN hl
      (fun m hm => by simpa using hmixer m hm) hnsome ho hunbroken hn
    have hprocessor := hst.processor_eq (K := K) hN h.sound.staffed
      fun call hcall => hlK _ (hcalls call hcall)
    exact ⟨k, by omega, calls, t, hst, hnone, .of_not (hprocessor.trans hsnk) hunbroken⟩

/-! ### Pulls and pushes -/

namespace Pipeline

omit [Processor τ] in
/-- A chain of nodes as it goes up. -/
lemma reverse (h : Pipeline d N S mixers K) :
    (K :: (mixers.reverse ++ [S])).IsChain fun y x => ∃ p, N.Pipes x y p := by
  simpa using List.isChain_reverse.mpr h.pipes

omit [Processor τ] in
lemma nodup_reverse (h : Pipeline d N S mixers K) :
    (K :: (mixers.reverse ++ [S])).Nodup := by
  simpa using List.nodup_reverse.mpr h.nodup

/-- After a pull of the sink nobody waits, and only optional inputs hold data. -/
theorem pulled (h : Pipeline d N S mixers K) (hN : d.Realized N)
    (hs : Steady d N none none s) (hnone : ∀ m, s.queued m = false) :
    ∃ k calls t, N.Forced (some K) (s.start .pull K) k calls t ∧
      Steady d N none none t ∧ ∀ m, t.queued m = false := by
  obtain ⟨hstart, honly⟩ := hs.start hnone .pull K
  have hreverse := h.reverse
  have hKsome : (d.kind? K).isSome = true := by rw [h.sink]; rfl
  obtain ⟨x, -, p, hxK⟩ := exists_rel_of_isChain hreverse
  have hp := (hxK.joins none).mem_inputs
  rcases hstart.sound.demanding (Description.isSink_of_kind? h.sink) hp
    (by rw [(hxK.joins none).feeder hN.proper]; rfl) with hfull | hneed
  · obtain ⟨t, hst, ht, hnone⟩ :=
      hstart.sated hN (hxK.joins (some K)) hKsome honly hfull
    exact ⟨1, _, t, hst, ht, hnone⟩
  · have hK := (List.nodup_cons.mp h.nodup_reverse).1
    obtain ⟨k, -, calls, t, hst, -, ht⟩ := hstart.fetch (D := some K) hN hreverse
      h.nodup_reverse h.asymm (fun m hm => h.mixer m (List.mem_reverse.mp hm)) h.source
      (fun m hm hc => hK (Option.some.inj hc ▸ hm)) hKsome honly hp hneed
    cases ht with
    | stuck ht hnone => exact ⟨k, calls, t, hst, ht, hnone⟩
    | fed ho ht hnt =>
        obtain ⟨snk, hsnk⟩ := ht.exists_sink h.sink
        obtain ⟨u, htu, hu, -, hqueued, -⟩ :=
          ht.consume hN h.sink (hxK.hands ho (some K)) hnt hsnk
        exact ⟨_, _, u, hst.trans htu, hu, by simpa using hqueued⟩

/-- A push of the source hands the sink one buffer if no input is optional. -/
theorem pushed_source (h : Pipeline d N S mixers K) (hN : d.Realized N)
    (hsync : N.async S = false) (hs : Steady d N none none s)
    (hnone : ∀ m, s.queued m = false) {snk : Sink}
    (hsnk : s.processor K = some (.sink snk)) :
    ∃ k ≤ 4 * mixers.length + 4, ∃ calls t,
      N.Forced (some S) (s.start .push S) k calls t ∧ (∀ m, t.queued m = false) ∧
      Gets K snk (N.Unbroken (mixers ++ [K])) t := by
  obtain ⟨hstart, honly⟩ := hs.start hnone .push S
  obtain ⟨hSm, hSK⟩ : S ∉ mixers ∧ S ≠ K := by simpa using (List.nodup_cons.mp h.nodup).1
  obtain ⟨y, -, p, hSy⟩ := exists_rel_of_isChain h.pipes
  obtain ⟨t, hst, ht, hnt⟩ :=
    hstart.produce (D := some S) hN h.source hSy.outputs honly
  have hsnk' := (hst.processor_eq (K := K) hN hstart.sound.staffed
    (by simpa using hSK)).trans hsnk
  obtain ⟨k, hk, calls, u, htu, hnone, hgets⟩ := ht.forward hN h.pipes h.asymm
    (fun m hm => ⟨h.mixer m hm, fun hc => hSm (hc ▸ hm)⟩) h.sink hSK hsync
    (by rw [h.source]; rfl) hSy.outputs hnt hsnk'
  exact ⟨1 + k, by omega, _, u, hst.trans htu, hnone, hgets⟩

omit [Processor τ] in
/-- A mixer is the end of a chain from the source, and the start of one to the sink. -/
lemma around (h : Pipeline d N S (above ++ n :: below) K) :
    (n :: (below ++ [K])).IsChain (fun x y => ∃ p, N.Pipes x y p) ∧
      (n :: (above.reverse ++ [S])).IsChain (fun y x => ∃ p, N.Pipes x y p) ∧
      (n :: (below ++ [K])).Nodup ∧ (n :: (above.reverse ++ [S])).Nodup ∧
      ∀ m ∈ above.reverse ++ [S], m ≠ K := by
  have hpipes : ((S :: above) ++ (n :: (below ++ [K]))).IsChain
      fun x y => ∃ p, N.Pipes x y p := by simpa using h.pipes
  have hup : ((S :: (above ++ [n])) ++ (below ++ [K])).IsChain
      fun x y => ∃ p, N.Pipes x y p := by simpa using h.pipes
  have hnodup : ((S :: above) ++ (n :: (below ++ [K]))).Nodup := by simpa using h.nodup
  obtain ⟨habove, hbelow, hne⟩ := List.nodup_append.mp hnodup
  have hmem : ∀ m ∈ above.reverse ++ [S], m ∈ S :: above := by simp [or_comm]
  have hreverse : (above.reverse ++ [S]).Nodup := by
    simpa using List.nodup_reverse.mpr habove
  refine ⟨(List.isChain_append.mp hpipes).2.1, ?_, hbelow,
    List.nodup_cons.mpr ⟨fun hn => hne n (hmem n hn) n (by simp) rfl, hreverse⟩,
    fun m hm => hne m (hmem m hm) K (by simp)⟩
  simpa using List.isChain_reverse.mpr (List.isChain_append.mp hup).1

/-- A push of a mixer hands the sink one buffer if its input holds data and no input
after it is optional. -/
theorem pushed_mixer (h : Pipeline d N S (above ++ n :: below) K) (hN : d.Realized N)
    (hsync : N.async n = false) (hs : Steady d N none none s)
    (hnone : ∀ m, s.queued m = false) {snk : Sink}
    (hsnk : s.processor K = some (.sink snk)) :
    ∃ k ≤ 4 * (above ++ n :: below).length + 4, ∃ calls t,
      N.Forced (some n) (s.start .push n) k calls t ∧ (∀ m, t.queued m = false) ∧
      Gets K snk ((∃ p ∈ N.inputs n, (s.slot p).hasData = true) ∧
        N.Unbroken (below ++ [K])) t := by
  obtain ⟨hstart, honly⟩ := hs.start hnone .push n
  have hn := h.mixer n (by simp)
  have hnsome : (d.kind? n).isSome = true := by rw [hn]; rfl
  obtain ⟨hdown, hup, hbelow, habove, haboveK⟩ := h.around
  have hnbelow := (List.nodup_cons.mp hbelow).1
  have hnK : n ≠ K := fun hc => hnbelow (by simp [hc])
  obtain ⟨w, -, p, hwn⟩ := exists_rel_of_isChain hup
  obtain ⟨z, hz, q, hnz⟩ := exists_rel_of_isChain hdown
  by_cases hq : (s.slot q).hasData = true
  · -- what it made before was not read, and is not read now
    have ho := hs.optional_of_hasData (hnz.joins none).mem_inputs (by simp) hq
    obtain ⟨t, hst, ht, hqueued, hphase⟩ := hstart.hold hN hn (hwn.joins (some n))
      (hnz.joins _) .output (Or.inl rfl) honly hq
    have hnt : t.Only n .checkOutput := ⟨by simpa using hqueued, hphase⟩
    obtain ⟨u, htu, -, hnone⟩ := ht.shelve hN (hnz.joins (some n)) ho hnsome hnt
    have hsu := hst.trans htu
    refine ⟨2, by omega, _, u, hsu, hnone, .of_not ((hsu.processor_eq (K := K) hN
      hstart.sound.staffed (by simpa using hnK)).trans hsnk) ?_⟩
    rintro ⟨-, hunbroken⟩
    simp [hunbroken z hz q (hnz.joins none).mem_inputs] at ho
  replace hq : (s.slot q).hasData = false := by simpa using hq
  by_cases hp : (s.slot p).hasData = true
  · -- it makes something of what its input holds
    obtain ⟨t, hst, ht, hqueued, hphase, -⟩ := hstart.mix hN hn (hwn.joins (some n))
      (hnz.joins _) .output (by simp) (Or.inl rfl) honly hp hq
    have hnt : t.Only n .checkOutput := ⟨by simpa using hqueued, hphase⟩
    have hsnk' := (hst.processor_eq (K := K) hN hstart.sound.staffed
      (by simpa using hnK)).trans hsnk
    obtain ⟨k, hk, calls, u, htu, hnone, hgets⟩ := ht.forward hN hdown h.asymm
      (fun m hm => ⟨h.mixer m (by simp [hm]), fun hc => hnbelow (by simp [hc, hm])⟩)
      h.sink hnK hsync hnsome hnz.outputs hnt hsnk'
    refine ⟨1 + k, by simp; omega, _, u, hst.trans htu, hnone, hgets.congr ?_⟩
    exact (and_iff_right ⟨p, (hwn.joins none).mem_inputs, hp⟩).symm
  · -- it asks for data, and as the driver it does not wait once it got some
    obtain ⟨k, hk, calls, t, hst, hcalls, hnone⟩ := hstart.fetch_driver hN hup habove
      h.asymm (fun m hm => h.mixer m (by simp [hm])) h.source hn hnz honly
      (hwn.joins none).mem_inputs (Bool.eq_false_iff.mpr hp) hq
    have hcallsK : ∀ call ∈ calls, call.node ≠ K := by
      intro call hcall
      rcases List.mem_cons.mp (hcalls call hcall) with hc | hc
      · rwa [hc]
      · exact haboveK _ hc
    exact ⟨k, by simp; omega, calls, t, hst, hnone,
      .of_not ((hst.processor_eq hN hstart.sound.staffed hcallsK).trans hsnk)
        (by simp [hwn.inputs, hp])⟩

/-- A push of the source or of a mixer hands the sink one buffer if it is the source
or its input holds data, and no input after it is optional. -/
theorem pushed (h : Pipeline d N S mixers K) (hN : d.Realized N)
    (hn : S :: mixers = above ++ n :: below) (hsync : N.async n = false)
    (hs : Steady d N none none s) (hnone : ∀ m, s.queued m = false) {snk : Sink}
    (hsnk : s.processor K = some (.sink snk)) :
    ∃ k ≤ 4 * mixers.length + 4, ∃ calls t,
      N.Forced (some n) (s.start .push n) k calls t ∧ (∀ m, t.queued m = false) ∧
      Gets K snk ((n = S ∨ ∃ p ∈ N.inputs n, (s.slot p).hasData = true) ∧
        N.Unbroken (below ++ [K])) t := by
  rcases above with _ | ⟨S', above⟩
  · obtain ⟨rfl, rfl⟩ := List.cons_eq_cons.mp hn
    obtain ⟨k, hk, calls, t, hst, hnone, hgets⟩ :=
      h.pushed_source hN hsync hs hnone hsnk
    exact ⟨k, hk, calls, t, hst, hnone, hgets.congr (by simp)⟩
  · obtain ⟨rfl, rfl⟩ := List.cons_eq_cons.mp hn
    have hne : n ≠ S := fun hc => (List.nodup_cons.mp h.nodup).1 (by simp [hc])
    obtain ⟨k, hk, calls, t, hst, hnone, hgets⟩ :=
      h.pushed_mixer hN hsync hs hnone hsnk
    exact ⟨k, hk, calls, t, hst, hnone, hgets.congr (by simp [hne])⟩

end Pipeline

end MediaGraph.Network

/-
Accepted descriptions can be built.

* `Edit.Succeeds`: an action on a graph that is carried out;
* `Assembly.succeeds_addSpecs`: the nodes of an accepted description are added,
  and none of their ports is linked;
* `Graph.Open`: the port at a place of the description is there and not linked;
* `Assembly.exists_connects`: links that fit together are made one after the
  other, each between ports that the others leave open;
* `Assembly.build_agrees`: exactly the accepted descriptions can be built, and
  every other one is refused for the flaws that were found in it.
-/
import MediaGraph.Proofs.Numbering

namespace MediaGraph

/-! ### Actions that are carried out -/

/-- An action on a graph is carried out. -/
def Edit.Succeeds {σ α : Type} (e : Edit σ α) (g : Graph σ) : Prop :=
  ∃ x g', e.run g = (.ok x, g')

namespace Edit.Succeeds

variable {σ α β : Type} {g : Graph σ}

lemma pure (x : α) : (Pure.pure x : Edit σ α).Succeeds g :=
  ⟨x, g, rfl⟩

lemma bind {e : Edit σ α} {f : α → Edit σ β} (he : e.Succeeds g)
    (hf : ∀ x g', e.run g = (.ok x, g') → (f x).Succeeds g') :
    (e >>= f).Succeeds g := by
  obtain ⟨x, g', hx⟩ := he
  obtain ⟨y, g'', hy⟩ := hf x g' hx
  have hb : (e >>= f).run g = ExceptT.bindCont f (e.run g).1 (e.run g).2 := rfl
  exact ⟨y, g'', by rw [hb, hx]; exact hy⟩

lemma discard {e : Edit σ α} (he : e.Succeeds g) :
    (Functor.discard e).Succeeds g := by
  obtain ⟨x, g', hx⟩ := he
  exact .bind ⟨x, g', hx⟩ fun _ _ _ => .pure _

/-- An action that can be repeated as long as `P` holds, for every number below
`k`. -/
lemma forM_range {P : ℕ → Graph σ → Prop} {f : ℕ → Edit σ PUnit} {k : ℕ}
    (h0 : P 0 g) (hf : ∀ i < k, ∀ g, P i g → (f i).Succeeds g)
    (hstep : ∀ i < k, ∀ g g', P i g → (f i).run g = (.ok ⟨⟩, g') → P (i + 1) g') :
    ((List.range k).forM f).Succeeds g := by
  have key : ∀ (m i : ℕ) (g : Graph σ), i + m = k → P i g →
      ((List.range' i m).forM f).Succeeds g := by
    intro m
    induction m with
    | zero => exact fun _ _ _ _ => .pure _
    | succ m ih =>
        intro i g hi hP
        rw [List.range'_succ]
        exact .bind (hf i (by omega) g hP) fun _ g' hg' =>
          ih (i + 1) g' (by omega) (hstep i (by omega) g g' hP hg')
  rw [List.range_eq_range']
  exact key k 0 g (by omega) h0

end Edit.Succeeds

/-! ### Adding nodes -/

namespace Graph.Follows

variable {σ : Type} {g : Graph σ} {plans : List (Plan σ)} {plan : Plan σ}
  {r : Nat → Nat → Prop} {asked : NodeId → Bool}

/-- The node that was added last can get another output, and another input as long as
the number of its required inputs can grow. -/
lemma succeeds_addPort (h : g.Follows (plans ++ [plan]) r asked) {d : Direction}
    (hlimit : d = .input → plan.requiredIn < requiredLimit) (flags : PortFlags) :
    (Graph.addPort ⟨plans.length⟩ d flags).Succeeds g := by
  obtain ⟨node, hnode, hfol⟩ := h.node plans.length plan (by simp)
  have hgrows : (({ direction := d, owner := ⟨plans.length⟩, flags } : Port).isRequired &&
      decide (node.requiredIn = requiredLimit)) = false := by
    cases d with
    | input =>
        rw [hfol.requiredIn, decide_eq_false (Nat.ne_of_lt (hlimit rfl)), Bool.and_false]
    | output => rfl
  simp only [Edit.Succeeds, Graph.addPort, ExceptT.run, hnode, hgrows,
    Bool.false_eq_true, if_false]
  exact ⟨_, _, rfl⟩

lemma succeeds_setFlags (h : g.Follows (plans ++ [plan]) r asked) (flags : NodeFlags) :
    (Graph.setFlags ⟨plans.length⟩ flags).Succeeds g := by
  obtain ⟨node, hnode, -⟩ := h.node plans.length plan (by simp)
  simp [Edit.Succeeds, Graph.setFlags, ExceptT.run, hnode]

lemma succeeds_setRequiredIn (h : g.Follows (plans ++ [plan]) r asked) (k : Nat) :
    (Graph.setRequiredIn ⟨plans.length⟩ k).Succeeds g := by
  obtain ⟨node, hnode, -⟩ := h.node plans.length plan (by simp)
  simp [Edit.Succeeds, Graph.setRequiredIn, ExceptT.run, hnode]

/-- A graph whose links join no nodes has none. -/
lemma link_eq_none (h : g.Follows plans (fun _ _ => False) asked) {p : PortId}
    {port : Port} (hp : g.ports.get? p = some port) : port.link = none := by
  rcases hl : port.link with _ | l
  · rfl
  · obtain ⟨_, hpeer, hback, hdir, -⟩ := h.wf.layout.link (h.wf.shows.port hp) hl
    obtain ⟨peer, hpeer', rfl⟩ := h.wf.shows.exists_port hpeer
    exfalso
    -- one of the two ends is an output
    cases hd : port.direction
    · refine h.link l.peer peer ⟨p, l.slot⟩ port hpeer' ?_ hback hp
      cases hd' : peer.direction
      · exact absurd (hd'.trans hd.symm) hdir
      · rfl
    · exact h.link p port l peer hp hd hl hpeer'

end Graph.Follows

namespace Assembly

variable {τ : Type} {g : Graph (Adapter τ)} {plans : List (Plan (Adapter τ))}
  {r : Nat → Nat → Prop} {asked : NodeId → Bool}

/-- A node is added with its ports and settings, as long as the number of its
required inputs can be told. -/
lemma succeeds_addSpec (h : g.Follows plans r asked) {spec : NodeSpec}
    (hlimit : spec.inputCount ≤ requiredLimit) : (addSpec spec).Succeeds g := by
  -- no more inputs are required than there are
  have hcount : ∀ i < spec.inputCount,
      (spec.planUpTo i 0 : Plan (Adapter τ)).requiredIn < requiredLimit := by
    intro i hi
    have := List.countP_le_length (p := fun i => !spec.isOptional i)
      (l := List.range i)
    simp only [List.length_range] at this
    simp only [NodeSpec.planUpTo]
    omega
  refine .bind ⟨_, _, rfl⟩ fun n₁ g₁ hadd => ?_
  obtain ⟨rfl, h₁⟩ := h.addNode hadd
  have hinput : ∀ i < spec.inputCount, ∀ g : Graph (Adapter τ),
      g.Follows (plans ++ [spec.planUpTo i 0]) r asked →
      (discard (Graph.addPort ⟨plans.length⟩ .input ⟨spec.isOptional i⟩)).Succeeds g :=
    fun i hi g hg => .discard (hg.succeeds_addPort (fun _ => hcount i hi) _)
  refine .bind (.forM_range h₁ hinput fun _ _ _ _ => follows_addInput)
    fun _ g₂ hins => ?_
  have h₂ := Edit.run_forM_range
    (P := fun i g => g.Follows (plans ++ [spec.planUpTo i 0]) r asked)
    hins h₁ fun _ _ _ _ => follows_addInput
  have houtput : ∀ j < spec.outputCount, ∀ g : Graph (Adapter τ),
      g.Follows (plans ++ [spec.planUpTo spec.inputCount j]) r asked →
      (discard (Graph.addPort ⟨plans.length⟩ .output {})).Succeeds g :=
    fun _ _ _ hg => .discard (hg.succeeds_addPort (fun hdir => absurd hdir (by decide)) _)
  refine .bind (.forM_range h₂ houtput fun _ _ _ _ => follows_addOutput)
    fun _ g₃ houts => ?_
  have h₃ := Edit.run_forM_range
    (P := fun j g => g.Follows (plans ++ [spec.planUpTo spec.inputCount j]) r asked)
    houts h₂ fun _ _ _ _ => follows_addOutput
  -- the flags, and then the override
  split
  · split
    · exact .bind (h₃.succeeds_setFlags _) fun _ _ hset => .bind
        ((h₃.setFlags hset).succeeds_setRequiredIn _) fun _ _ _ => .pure _
    · exact .bind (h₃.succeeds_setRequiredIn _) fun _ _ _ => .pure _
  · split
    · exact .bind (h₃.succeeds_setFlags _) fun _ _ _ => .pure _
    · exact .pure _

/-- All nodes are added. -/
lemma succeeds_addSpecs (h : g.Follows plans r asked) {specs : List NodeSpec}
    (hlimit : ∀ spec ∈ specs, spec.inputCount ≤ requiredLimit) :
    (addSpecs specs).Succeeds g := by
  induction specs generalizing g plans with
  | nil => exact .pure _
  | cons spec specs ih =>
      rw [addSpecs, List.mapM_cons]
      refine .bind (.bind (succeeds_addSpec h (hlimit spec (by simp)))
        fun _ _ _ => .pure _) fun x g₁ hx => ?_
      obtain ⟨n, g₂, hn, hpure⟩ := Edit.run_bind_ok hx
      obtain ⟨-, rfl⟩ := Edit.run_pure_ok hpure
      obtain ⟨-, h₁⟩ := follows_addSpec h hn
      exact .bind (ih h₁ fun spec hs => hlimit spec (by simp [hs])) fun _ _ _ =>
        .pure _

end Assembly

/-! ### Open ports -/

namespace Graph

variable {σ : Type} {g : Graph σ} {p q : PortId}

/-- The port at a place is there and not linked. -/
def Open (g : Graph σ) (dir : Direction) (place : PortPlace) : Prop :=
  ∃ p port, g.portAt? dir place = some p ∧ g.ports.get? p = some port ∧
    port.link = none

/-- Two open ports of different nodes can be linked. Every other port that was
open stays so. -/
lemma WellFormed.exists_link (h : g.WellFormed) {e : Ends}
    (hp : g.portAt? .output e.1 = some p) (hq : g.portAt? .input e.2 = some q)
    (hout : g.Open .output e.1) (hinp : g.Open .input e.2)
    (hne : e.1.node ≠ e.2.node) :
    ∃ s g', (Graph.link p q).run g = (.ok s, g') ∧
      ∀ dir place, (dir, place) ≠ (.output, e.1) → (dir, place) ≠ (.input, e.2) →
        g.Open dir place → g'.Open dir place := by
  obtain ⟨_, out, hp', hout, hpl⟩ := hout
  obtain rfl := Option.some.inj (hp.symm.trans hp')
  obtain ⟨_, inp, hq', hinp, hql⟩ := hinp
  obtain rfl := Option.some.inj (hq.symm.trans hq')
  obtain ⟨_, he, hpo, hpd⟩ := h.portAt?_eq_some hp
  obtain rfl := Option.some.inj (hout.symm.trans he)
  obtain ⟨_, he, hqo, hqd⟩ := h.portAt?_eq_some hq
  obtain rfl := Option.some.inj (hinp.symm.trans he)
  have hrun : (Graph.link p q).run g = (.ok g.slots.fresh,
      (Graph.modifyPort { g with slots := g.slots.insert {} } p
        ({ · with link := some ⟨q, g.slots.fresh⟩ })).modifyPort q
        ({ · with link := some ⟨p, g.slots.fresh⟩ })) := by
    simp [Graph.link, ExceptT.run, hout, hinp, hpd, hqd, hpl, hql, hpo, hqo, hne]
  obtain ⟨_, _, hmade, -⟩ := h.makesLink hrun
  refine ⟨_, _, hrun, fun dir place hdp hdq => ?_⟩
  rintro ⟨x, port, hx, hport, hl⟩
  refine ⟨x, port, hx, ?_, hl⟩
  have hxp : x ≠ p := by
    rintro rfl
    obtain ⟨rfl, rfl⟩ := h.portAt?_inj hx hp
    exact hdp rfl
  have hxq : x ≠ q := by
    rintro rfl
    obtain ⟨rfl, rfl⟩ := h.portAt?_inj hx hq
    exact hdq rfl
  rw [hmade.ports, if_neg hxq, if_neg hxp]
  exact hport

end Graph

/-! ### Making links -/

namespace Assembly

variable {τ : Type} {d : Description} {a : Assembly τ} {g : Graph (Adapter τ)}
  {r : Nat → Nat → Prop} {asked : NodeId → Bool} {dir : Direction}
  {reference : String} {place : PortPlace}

/-- The ports of a graph without links are open. -/
lemma open_of_follows (hd : d.Accepted)
    (h : g.Follows (d.nodes.map NodeSpec.plan) (fun _ _ => False) asked)
    (hok : d.resolve dir reference = .ok place) : g.Open dir place := by
  obtain ⟨ref, spec, -, hspec, -, hindex, hlt⟩ := hd.resolve_eq_ok.mp hok
  obtain ⟨p, hp⟩ := h.exists_portAt? hspec (hindex ▸ hlt)
  obtain ⟨port, hport, -⟩ := h.wf.portAt?_eq_some hp
  exact ⟨p, port, hp, hport, h.link_eq_none hport⟩

/-- A link between two open ports is made, and the other ports stay open. -/
lemma exists_connect (hd : d.Accepted)
    (h : a.graph.Follows (d.nodes.map NodeSpec.plan) r asked)
    (hn : a.nodes = named 0 d.nodes) (hsize : a.graph.ports.size ≤ Handle.bound)
    {l : LinkSpec} {e : Ends} (hl : d.Resolves l e)
    (hout : a.graph.Open .output e.1) (hinp : a.graph.Open .input e.2)
    (hne : e.1.node ≠ e.2.node) :
    ∃ a', a.connect l = .ok a' ∧ ∀ dir place, (dir, place) ≠ (.output, e.1) →
      (dir, place) ≠ (.input, e.2) → a.graph.Open dir place →
        a'.graph.Open dir place := by
  have ⟨p, _, hpe, _⟩ := hout
  have ⟨q, _, hqe, _⟩ := hinp
  have hp := (resolve_eq_ok_of_size hd h hn hsize).mpr ⟨_, hl.1, hpe⟩
  have hq := (resolve_eq_ok_of_size hd h hn hsize).mpr ⟨_, hl.2, hqe⟩
  obtain ⟨s, g', hrun, hopen⟩ := h.wf.exists_link hpe hqe hout hinp hne
  refine ⟨{ a with graph := g' }, ?_, hopen⟩
  simp [connect, hp, hq, flawed, edit, hrun, bind, Except.bind, pure, Except.pure]

/-- Links between ports that are open are made, if no port occurs twice and no
node is linked to itself. -/
lemma exists_connects (hd : d.Accepted) {ends : LinkSpec → Ends}
    {links : List LinkSpec} (hl : ∀ l ∈ links, l ∈ d.links)
    (hends : ∀ l ∈ links, d.Resolves l (ends l))
    (hfits : LinksFit d.allowCycles (links.map ends))
    (h : a.graph.Follows (d.nodes.map NodeSpec.plan) d.Linked fun _ => false)
    (hn : a.nodes = named 0 d.nodes) (hsize : a.graph.ports.size ≤ Handle.bound)
    (hopen : ∀ l ∈ links, a.graph.Open .output (ends l).1 ∧
      a.graph.Open .input (ends l).2) :
    ∃ a', links.foldlM connect a = .ok a' := by
  induction links generalizing a with
  | nil => exact ⟨a, rfl⟩
  | cons l links ih =>
      obtain ⟨hout, hinp⟩ := hopen l (by simp)
      obtain ⟨b, hb, hkeep⟩ := exists_connect hd h hn hsize (hends l (by simp)) hout hinp
        (hfits.noLoop (ends l) (by simp))
      obtain ⟨hfollows, hfields⟩ := follows_connect hd h hn hsize (hl l (by simp)) hb
      -- the ports of the other links are not those of this one
      have hother : ∀ l' ∈ links,
          (ends l').1 ≠ (ends l).1 ∧ (ends l').2 ≠ (ends l).2 := by
        have houtputs := hfits.outputs
        have hinputs := hfits.inputs
        simp only [List.map_cons, List.map_map, List.nodup_cons, List.mem_map,
          Function.comp_apply, not_exists, not_and] at houtputs hinputs
        exact fun l' hl' => ⟨houtputs.1 l' hl', hinputs.1 l' hl'⟩
      obtain ⟨a', ha'⟩ := ih (fun l h => hl l (by simp [h]))
        (fun l h => hends l (by simp [h])) (hfits.sublist (List.sublist_cons_self _ _))
        hfollows (by rw [hfields]; exact hn) (by rwa [size_ports_connect hb])
        fun l' hl' => by
          obtain ⟨hout', hinp'⟩ := hopen l' (by simp [hl'])
          obtain ⟨ho, hi⟩ := hother l' hl'
          exact ⟨hkeep _ _ (by simp [ho]) (by simp) hout',
            hkeep _ _ (by simp) (by simp [hi]) hinp'⟩
      exact ⟨a', by rw [List.foldlM_cons, hb]; exact ha'⟩

/-! ### Building -/

/-- A step of the script is resolved if it names a node. -/
lemma exists_resolveSteps (hd : d.Accepted) (hn : a.nodes = named 0 d.nodes)
    {script : List StepSpec} (hs : ∀ step ∈ script, d.Performs step) :
    ∃ steps, script.mapM a.resolveStep = .ok steps := by
  induction script with
  | nil => exact ⟨[], rfl⟩
  | cons step script ih =>
      obtain ⟨spec, hspec, hname, -⟩ := hs step (by simp)
      obtain ⟨i, hi⟩ := List.mem_iff_getElem?.mp hspec
      have hid : a.nodeId? step.node = some ⟨i⟩ := by
        rw [nodeId?, hn, lookup_named, ← hname, hd.findIdx? hi]
        simp
      obtain ⟨steps, hsteps⟩ := ih fun step h => hs step (by simp [h])
      refine ⟨⟨step.mode, ⟨i⟩, step.node, step.times⟩ :: steps, ?_⟩
      simp [List.mapM_cons, resolveStep, hid, hsteps, bind, Except.bind, pure,
        Except.pure]

end Assembly

namespace Assembly

variable {τ : Type} {d : Description}

/-- A description is built if it is accepted, its nodes, its links and its script can be
put in place, and its ports have numbers enough. -/
lemma build_of_parts {nodes : List (String × NodeId)} {g : Graph (Adapter τ)}
    {wired : Assembly τ} {script : List Step} (hvalid : d.validate = .ok ())
    (hnodes : (addSpecs d.nodes).run .empty = (.ok nodes, g))
    (hsize : g.ports.size ≤ Handle.bound)
    (hlinks : d.links.foldlM connect
      { name := d.name, graph := g, nodes, sinkNodes := sinksOf d nodes } = .ok wired)
    (hscript : d.script.mapM (resolveStep { wired with
      graph := ((sinksOf d nodes).map Prod.snd).foldl prime wired.graph }) =
        .ok script) :
    ∃ a : Assembly τ, build d = .ok a := by
  have hedit := edit_of_run (a := { name := d.name, graph := .empty }) hnodes
  have hwired : ¬ Handle.bound < wired.graph.ports.size := by
    rw [size_ports_connects hlinks]
    exact Nat.not_lt_of_le hsize
  simp only [build, hvalid, hedit, bind, Except.bind, hlinks, if_neg hwired, hscript]
  exact ⟨_, rfl⟩

/-- A description is refused for the first of its links that cannot be made. -/
lemma build_eq_error {nodes : List (String × NodeId)} {g : Graph (Adapter τ)}
    {e : BuildError} (hvalid : d.validate = .ok ())
    (hnodes : (addSpecs d.nodes).run .empty = (.ok nodes, g))
    (hlinks : d.links.foldlM connect
      { name := d.name, graph := g, nodes, sinkNodes := sinksOf d nodes } = .error e) :
    build (τ := τ) d = .error e := by
  have hedit := edit_of_run (a := { name := d.name, graph := .empty }) hnodes
  simp only [build, hvalid, hedit, bind, Except.bind, hlinks]

/-- The inputs of a node can be counted if all ports have numbers enough. -/
lemma inputCount_le_requiredLimit (hports : d.portTotal ≤ Handle.bound) {spec : NodeSpec}
    (hspec : spec ∈ d.nodes) : spec.inputCount ≤ requiredLimit := by
  have hle := Description.ports_le_portTotal hspec
  have hbound : Handle.bound = 4294967296 := rfl
  have hlimit : requiredLimit = 4294967295 := rfl
  rcases hkind : spec.kind <;>
    simp only [NodeSpec.inputCount, NodeSpec.outputCount, hkind] at hle ⊢ <;> omega

/-- An accepted description can be built, as long as its ports have numbers enough. -/
lemma exists_build (hports : d.portTotal ≤ Handle.bound) (hvalid : d.validate = .ok ()) :
    ∃ a : Assembly τ, build d = .ok a := by
  obtain ⟨haccepted, hlinks, hscript⟩ := Description.validate_eq_ok.mp hvalid
  have : Nonempty Ends := ⟨⟨0, 0⟩, ⟨0, 0⟩⟩
  choose! ends hends using Description.exists_resolves_of_linkFlaws hlinks
  have hfits := (Description.linkFlaws_eq_nil_iff hends (Wiring.holds_start _)
    .nil).mp hlinks
  -- the nodes
  obtain ⟨nodes, g, hrun⟩ := succeeds_addSpecs (τ := τ)
    (Graph.follows_empty d.Linked fun _ => false) fun _ => inputCount_le_requiredLimit hports
  have hsize : g.ports.size ≤ Handle.bound := by rwa [size_ports_of_addSpecs hrun]
  obtain ⟨rfl, h⟩ := follows_addSpecs
    (Graph.follows_empty d.Linked fun _ => false) hrun
  obtain ⟨-, hbare⟩ := follows_addSpecs
    (Graph.follows_empty (fun _ _ => False) fun _ => false) hrun
  rw [List.nil_append] at h hbare
  -- the links
  obtain ⟨wired, hwired⟩ := exists_connects (a := {
      name := d.name
      graph := g
      nodes := named 0 d.nodes
      sinkNodes := sinksOf d (named 0 d.nodes) }) haccepted (fun _ hl => hl) hends
    hfits h rfl hsize fun l hl => ⟨open_of_follows haccepted hbare (hends l hl).1,
      open_of_follows haccepted hbare (hends l hl).2⟩
  obtain ⟨-, hfields⟩ :=
    follows_connects haccepted (fun _ hl => hl) h rfl hsize hwired
  -- the script
  obtain ⟨script, hsteps⟩ := exists_resolveSteps (a := { wired with
      graph := ((sinksOf d (named 0 d.nodes)).map Prod.snd).foldl prime wired.graph })
    haccepted (by rw [hfields]) fun step hstep =>
      haccepted.checkStep_eq_none.mp (hscript step hstep)
  exact build_of_parts hvalid hrun hsize hwired hsteps

/-- Only accepted descriptions can be built, and all of them can whose ports have numbers
enough. -/
lemma exists_build_iff (hports : d.validate = .ok () → d.portTotal ≤ Handle.bound) :
    (∃ a : Assembly τ, build d = .ok a) ↔ d.validate = .ok () :=
  ⟨fun ⟨_, ha⟩ => (exists_parts ha).1, fun hvalid => exists_build (hports hvalid) hvalid⟩

/-- Exactly the accepted descriptions can be built, and every other one is
refused for the flaws that were found in it. -/
theorem build_agrees (d : Description) (hd : d.portTotal < 4294967296) :
    ((∃ a : Assembly τ, build d = .ok a) ↔ d.validate = .ok ()) ∧
      ∀ e, build (τ := τ) d = .error e ↔
        ∃ flaws, d.validate = .error flaws ∧ e = .invalid flaws := by
  rcases hvalid : d.validate with flaws | ⟨⟩
  · have hbuild : build (τ := τ) d = .error (.invalid flaws) := by
      rw [build, hvalid]
      rfl
    simp [hbuild, eq_comm]
  · obtain ⟨a, ha⟩ := exists_build (τ := τ) (Nat.le_of_lt hd) hvalid
    simp [ha]

/-- Two sources that are mixed into a sink. -/
theorem build_agrees_fanIn : Catalogue.fanIn.portTotal < 4294967296 ∧
    ∃ a : Assembly Empty, build Catalogue.fanIn = .ok a := by
  have hports : Catalogue.fanIn.portTotal < 4294967296 := by decide
  exact ⟨hports, (build_agrees Catalogue.fanIn hports).1.mpr (by decide +kernel)⟩

end Assembly

end MediaGraph

/-
The graph that is built is the graph that is described.

* `Graph.Joins`: an output and an input, each at its place, are linked;
* `Graph.joins_of_link`, `Assembly.joins_of_connects`: what one link and all links
  of a description join;
* `Node.Represents`, `Assembly.Represents`: every node, link, slot and step of an
  assembly is one of a description, and the other way round;
* `Assembly.exists_represents`: every accepted description is represented by the
  assembly that is built from it.
-/
import Mathlib.Data.List.Forall2
import MediaGraph.Proofs.Agreement
import MediaGraph.Proofs.Construction
import MediaGraph.Proofs.Quiescence

namespace MediaGraph

/-! ### Counting slots -/

namespace Arena

variable {kind : Kind} {α : Type}

lemma length_values_insert (a : Arena kind α) (x : α) :
    (a.insert x).values.length = a.values.length + 1 := by
  simp [values, insert]

lemma length_values_modify (a : Arena kind α) (h : Handle kind) (f : α → α) :
    (a.modify h f).values.length = a.values.length := by
  have hcontains : (a.modify h f).contains = a.contains := by
    funext h'
    exact Graph.Shrinks.isSome_get?_modify a h h' f
  rw [length_values, length_values, handles, handles, hcontains, size_modify]

end Arena

namespace Graph

variable {σ : Type} {g g' : Graph σ} {p q : PortId} {s : SlotId} {e e' : Ends}

/-! ### Links between places -/

/-- The output at one place and the input at another one are linked. -/
def Joins (g : Graph σ) (e : Ends) : Prop :=
  ∃ p q, g.portAt? .output e.1 = some p ∧ g.portAt? .input e.2 = some q ∧
    g.peer? p = some q

/-- A new link joins its two ends, and what was joined before stays so. -/
lemma joins_of_link (h : g.WellFormed) (hok : (Graph.link p q).run g = (.ok s, g'))
    (hp : g.portAt? .output e.1 = some p) (hq : g.portAt? .input e.2 = some q) :
    (∀ e', g'.Joins e' ↔ g.Joins e' ∨ e' = e) ∧
      g'.linkCount = g.linkCount + 1 := by
  obtain ⟨out, inp, hmade, -⟩ := h.makesLink hok
  have hplace : ∀ dir place, g'.portAt? dir place = g.portAt? dir place := by
    intro dir place
    rw [portAt?, portAt?, hmade.nodes]
  refine ⟨fun e' => ?_, ?_⟩
  · simp only [Joins, hplace]
    constructor
    · rintro ⟨p', q', hp', hq', hjoin⟩
      have hne : p' ≠ q := by
        rintro rfl
        exact absurd (h.portAt?_inj hp' hq).1 (by decide)
      rw [hmade.peer?_eq, if_neg hne] at hjoin
      split at hjoin
      · rename_i he
        subst he
        obtain rfl := Option.some.inj hjoin
        exact Or.inr (Prod.ext (h.portAt?_inj hp' hp).2 (h.portAt?_inj hq' hq).2)
      · exact Or.inl ⟨p', q', hp', hq', hjoin⟩
    · rintro (⟨p', q', hp', hq', hjoin⟩ | rfl)
      · exact ⟨p', q', hp', hq', hmade.peer?_of_some hjoin⟩
      · exact ⟨p, q, hp, hq,
          by rw [hmade.peer?_eq, if_neg hmade.ne.symm, if_pos rfl]⟩
  · rw [linkCount, hmade.slots]
    exact g.slots.length_values_insert {}

/-- A write to a slot changes no link. -/
lemma joins_modifySlotOf (g : Graph σ) (p : PortId) (f : Slot → Slot) :
    (∀ e, (g.modifySlotOf p f).Joins e ↔ g.Joins e) ∧
      (g.modifySlotOf p f).linkCount = g.linkCount := by
  rw [modifySlotOf]
  split
  · exact ⟨fun _ => Iff.rfl, g.slots.length_values_modify _ _⟩
  · exact ⟨fun _ => Iff.rfl, rfl⟩

end Graph

/-! ### Names -/

namespace Assembly

variable {τ : Type} {d : Description} {a a' : Assembly τ}

/-- The name of a node is that of the node of the description at its place. -/
lemma find?_named (specs : List NodeSpec) (n : NodeId) :
    ((named 0 specs).find? (·.2 = n)).map Prod.fst = specs[n.index]?.map (·.name) := by
  have key : ∀ (k : ℕ) (specs : List NodeSpec), k ≤ n.index →
      ((named k specs).find? (·.2 = n)).map Prod.fst =
        specs[n.index - k]?.map (·.name) := by
    intro k specs
    induction specs generalizing k with
    | nil => simp [named]
    | cons spec specs ih =>
        intro hk
        have hcons : named k (spec :: specs) =
            (spec.name, ⟨k⟩) :: named (k + 1) specs := rfl
        rw [hcons, List.find?_cons]
        rcases Nat.eq_or_lt_of_le hk with rfl | hlt
        · simp
        · have hne : (⟨k⟩ : NodeId) ≠ n := by
            rintro rfl
            exact Nat.lt_irrefl _ hlt
          obtain ⟨i, hi⟩ := Nat.exists_eq_add_of_lt hlt
          simp only [hne, decide_false]
          rw [ih (k + 1) hlt, hi]
          simp [show k + i + 1 - k = i + 1 by omega,
            show k + i + 1 - (k + 1) = i by omega]
  exact key 0 specs (Nat.zero_le _)

/-- Names stand for the nodes that bear them. -/
lemma nodeId?_eq_some (hd : d.Accepted) (hn : a.nodes = named 0 d.nodes) {name : String}
    {n : NodeId} : a.nodeId? name = some n ↔
      ∃ spec, d.nodes[n.index]? = some spec ∧ spec.name = name := by
  rw [nodeId?, hn, lookup_named, Option.map_eq_some_iff]
  constructor
  · rintro ⟨i, hi, rfl⟩
    obtain ⟨hlt, hname, -⟩ := List.findIdx?_eq_some_iff_getElem.mp hi
    exact ⟨d.nodes[i], by simp, by simpa using hname⟩
  · rintro ⟨spec, hspec, rfl⟩
    exact ⟨n.index, hd.findIdx? hspec, by simp⟩

/-! ### Links of descriptions -/

/-- The links that are made join what they name, and nothing else is joined. -/
lemma joins_of_connects (hd : d.Accepted) {links : List LinkSpec}
    (hl : ∀ l ∈ links, l ∈ d.links)
    (h : a.graph.Follows (d.nodes.map NodeSpec.plan) d.Linked fun _ => false)
    (hn : a.nodes = named 0 d.nodes) (hsize : a.graph.ports.size ≤ Handle.bound)
    (hok : links.foldlM connect a = .ok a') :
    (∀ e, a'.graph.Joins e ↔ a.graph.Joins e ∨ ∃ l ∈ links, d.Resolves l e) ∧
      a'.graph.linkCount = a.graph.linkCount + links.length := by
  induction links generalizing a with
  | nil =>
      cases hok
      simp
  | cons l links ih =>
      rw [List.foldlM_cons] at hok
      obtain ⟨b, hb, hok⟩ := bind_ok hok
      obtain ⟨hfollows, hfields⟩ := follows_connect hd h hn hsize (hl l (by simp)) hb
      obtain ⟨hjoins, hcount⟩ := ih (fun l h => hl l (by simp [h])) hfollows
        (by rw [hfields]; exact hn) (by rwa [size_ports_connect hb]) hok
      obtain ⟨ends, p, q, s, hends, hpat, hqat, hmade⟩ :=
        exists_ends_of_connect hd h hn hsize hb
      obtain ⟨hlink, hgrown⟩ := Graph.joins_of_link h.wf hmade hpat hqat
      have hresolves : ∀ e, d.Resolves l e ↔ e = ends := by
        intro e
        rw [Description.Resolves, hends.1, hends.2, Prod.ext_iff, Except.ok.injEq,
          Except.ok.injEq]
        simp only [eq_comm]
      refine ⟨fun e => ?_, ?_⟩
      · rw [hjoins, hlink, List.exists_mem_cons_iff, hresolves, or_assoc]
      · rw [hcount, hgrown, List.length_cons]
        omega

/-- The requests of the sinks change no link. -/
lemma joins_of_primes (sinks : List NodeId) (g : Graph (Adapter τ)) :
    (∀ e, (sinks.foldl prime g).Joins e ↔ g.Joins e) ∧
      (sinks.foldl prime g).linkCount = g.linkCount := by
  induction sinks generalizing g with
  | nil => exact ⟨fun _ => Iff.rfl, rfl⟩
  | cons n sinks ih =>
      obtain ⟨hjoins, hcount⟩ := ih (prime g n)
      rcases exists_prime_eq g n with hg | ⟨p, c, hg⟩
      · rw [hg] at hjoins hcount
        rw [List.foldl_cons, hg]
        exact ⟨hjoins, hcount⟩
      · obtain ⟨hjoins', hcount'⟩ := g.joins_modifySlotOf p fun _ => c
        rw [hg] at hjoins hcount
        rw [List.foldl_cons, hg]
        exact ⟨fun e => (hjoins e).trans (hjoins' e), hcount.trans hcount'⟩

/-- Adding nodes makes no slots. -/
lemma slots_of_addSpecs {specs : List NodeSpec} {nodes : List (String × NodeId)}
    {g : Graph (Adapter τ)} (hok : (addSpecs specs).run .empty = (.ok nodes, g)) :
    g.slots = .empty := by
  refine keeps_addSpecs (P := fun g => g.slots = .empty) ?_ ?_ ?_ ?_ specs rfl hok
  · intro x g g' n h hok
    cases hok
    exact h
  · intro n dir flags g g' p h hok
    simp only [Graph.addPort, ExceptT.run] at hok
    repeat' split at hok
    all_goals
      cases hok
      try exact h
  · intro n flags g g' u h hok
    simp only [Graph.setFlags, ExceptT.run] at hok
    split at hok
    all_goals
      cases hok
      try exact h
  · intro n k g g' u h hok
    simp only [Graph.setRequiredIn, ExceptT.run] at hok
    split at hok
    all_goals
      cases hok
      try exact h

/-- The links of a built graph are those of its description. -/
lemma joins_of_build (hok : build d = .ok a) :
    (∀ e, a.graph.Joins e ↔ ∃ l ∈ d.links, d.Resolves l e) ∧
      a.graph.linkCount = d.links.length := by
  obtain ⟨hvalid, g, wired, script, hrun, hsize, hwired, -, rfl⟩ := exists_parts hok
  obtain ⟨-, h⟩ := follows_addSpecs (Graph.follows_empty d.Linked fun _ => false) hrun
  obtain ⟨-, hbare⟩ := follows_addSpecs
    (Graph.follows_empty (fun _ _ => False) fun _ => false) hrun
  obtain ⟨hjoins, hcount⟩ := joins_of_connects (Description.accepted_of_validate hvalid)
    (fun _ hl => hl) (by simpa using h) rfl hsize hwired
  obtain ⟨hjoins', hcount'⟩ :=
    joins_of_primes ((sinksOf d (named 0 d.nodes)).map Prod.snd) wired.graph
  -- without links nothing is joined
  have hnone : ∀ e, ¬ g.Joins e := by
    rintro e ⟨p, q, hp, -, hjoin⟩
    obtain ⟨port, hport, -⟩ := hbare.wf.portAt?_eq_some hp
    simp [Graph.peer?, hport, Port.peer?, hbare.link_eq_none hport] at hjoin
  have hzero : g.linkCount = 0 := by
    rw [Graph.linkCount, slots_of_addSpecs hrun]
    rfl
  refine ⟨fun e => ?_, ?_⟩
  · rw [hjoins', hjoins]
    exact or_iff_right (hnone e)
  · rw [hcount', hcount, hzero, Nat.zero_add]

end Assembly

/-! ### What an assembly represents -/

/-- A node has the ports and the settings of a node of a description, and no turn of
it was taken yet. -/
structure Node.Represents {τ : Type} (g : Graph (Adapter τ)) (node : Node (Adapter τ))
    (spec : NodeSpec) : Prop where
  processor : node.processor = Assembly.processorOf spec
  inputs : node.inputs.size = spec.inputCount
  outputs : node.outputs.size = spec.outputCount
  optional : ∀ {j p}, node.inputs[j]? = some p → ∃ port, g.ports.get? p = some port ∧
    (port.flags.optional = true ↔ j ∈ spec.optionalInputs)
  requiredIn : node.requiredIn = spec.requiredIn.getD
    ((List.range spec.inputCount).countP fun j => j ∉ spec.optionalInputs)
  async : node.flags.async = spec.async
  phase : node.phase = .checkInput
  readyIn : node.readyIn = 0

/-- An assembly has the nodes, the links and the script of a description, and nothing
happened in it yet but that the linked sinks asked for data. -/
structure Assembly.Represents {τ : Type} (a : Assembly τ) (d : Description) : Prop where
  size : a.graph.nodes.size = d.nodes.length
  /-- The nodes in order, under the handles from 0 on. -/
  nodes : a.nodes = d.nodes.zipIdx.map fun (spec, i) => (spec.name, ⟨i⟩)
  node : ∀ {n : NodeId} {spec : NodeSpec}, d.nodes[n.index]? = some spec →
    ∃ node, a.graph.nodes.get? n = some node ∧ node.Represents a.graph spec
  nodeName? : ∀ n, a.nodeName? n = d.nodes[n.index]?.map (·.name)
  nodeId?_iff : ∀ name n, a.nodeId? name = some n ↔ a.nodeName? n = some name
  /-- An output is linked to an input exactly if a link names the two. -/
  joins_iff : ∀ e : Ends, a.graph.Joins e ↔ ∃ l ∈ d.links,
    d.Names .output l.source e.1 ∧ d.Names .input l.target e.2
  linkCount : a.graph.linkCount = d.links.length
  /-- The slot of a linked input is empty, and that of a sink asks for data. -/
  inputSlot : ∀ {p port}, a.graph.ports.get? p = some port → port.direction = .input →
    port.link.isSome = true → a.graph.slotOf? p =
      some ⟨if d.isSink port.owner then .needData else .ok, none⟩
  /-- There are no other slots. -/
  slot : ∀ {s c}, a.graph.slots.get? s = some c → ∃ p port,
    a.graph.ports.get? p = some port ∧ port.direction = .input ∧
      a.graph.slotId? p = some s
  quiet : a.graph.Quiet
  /-- The steps of the script, with names resolved. -/
  script : List.Forall₂ (fun (step : StepSpec) (s : Step) =>
    s.mode = step.mode ∧ s.name = step.node ∧ s.times = step.times ∧
      a.nodeId? step.node = some s.node) d.script a.script

namespace Assembly

variable {τ : Type} {d : Description} {a : Assembly τ}

/-- A node that follows the plan of a node of a description represents it. -/
lemma represents_of_follows {g : Graph (Adapter τ)} {node : Node (Adapter τ)}
    {spec : NodeSpec} (h : node.Follows g spec.plan) : node.Represents g spec where
  processor := h.processor
  inputs := by simpa [NodeSpec.plan] using h.inputs
  outputs := h.outputs
  optional {j p} hj := by
    obtain ⟨port, hport, ho⟩ := h.optional j p hj
    obtain ⟨i, hi, ho⟩ := Option.map_eq_some_iff.mp ((List.getElem?_map ..).symm.trans ho)
    obtain ⟨hlt, rfl⟩ := List.getElem?_eq_some_iff.mp hi
    rw [List.getElem_range, NodeSpec.isOptional] at ho
    exact ⟨port, hport, by rw [← ho, List.contains_iff_mem]⟩
  requiredIn := by
    simpa [NodeSpec.plan, NodeSpec.requiredCount, NodeSpec.isOptional] using h.requiredIn
  async := by rw [h.flags]; rfl
  phase := h.phase
  readyIn := h.readyIn

/-- A script is resolved step by step. -/
lemma forall₂_of_resolveSteps {script : List StepSpec} {steps : List Step}
    (hok : script.mapM a.resolveStep = .ok steps) :
    List.Forall₂ (fun (step : StepSpec) (s : Step) =>
      s.mode = step.mode ∧ s.name = step.node ∧ s.times = step.times ∧
        a.nodeId? step.node = some s.node) script steps := by
  induction script generalizing steps with
  | nil =>
      cases hok
      exact .nil
  | cons step script ih =>
      rw [List.mapM_cons] at hok
      obtain ⟨s, hs, hok⟩ := bind_ok hok
      obtain ⟨rest, hrest, hok⟩ := bind_ok hok
      cases hok
      refine .cons ?_ (ih hrest)
      rw [resolveStep] at hs
      split at hs
      · rename_i n hn
        cases hs
        exact ⟨rfl, rfl, rfl, hn⟩
      · cases hs

variable [Processor τ]

/-- What is built from a description represents it. -/
lemma represents_of_build (hok : build d = .ok a) : a.Represents d := by
  obtain ⟨hd, h⟩ := follows_of_build hok
  obtain ⟨hjoins, hcount⟩ := joins_of_build hok
  have hlinked := (tidy_of_build hok).linked
  obtain ⟨-, g, wired, script, hrun, hsize, hwired, hscript, ha⟩ := exists_parts hok
  obtain ⟨-, h₀⟩ := follows_addSpecs (Graph.follows_empty d.Linked fun _ => false) hrun
  obtain ⟨-, hfields⟩ := follows_connects hd (fun _ hl => hl) (by simpa using h₀) rfl
    hsize hwired
  have hn : a.nodes = named 0 d.nodes := by
    rw [ha]
    exact congrArg Assembly.nodes hfields
  have hname : ∀ n, a.nodeName? n = d.nodes[n.index]?.map (·.name) := by
    intro n
    rw [nodeName?, hn]
    exact find?_named d.nodes n
  refine ⟨by simpa using h.size, hn, fun {n spec} hspec => ?_, hname, fun name n => ?_,
    fun e => ?_, hcount, fun {p port} hp hin hl => ?_, fun {s c} hs => ?_,
    Graph.quiet_of_lists h.queue h.driver, ?_⟩
  · obtain ⟨node, hnode, hfol⟩ := h.node n.index spec.plan (by simp [hspec])
    exact ⟨node, hnode, represents_of_follows hfol⟩
  · rw [nodeId?_eq_some hd hn, hname, Option.map_eq_some_iff]
  · simp only [hjoins, Description.Resolves, hd.resolve_eq_ok]
  · obtain ⟨l, hl⟩ := Option.isSome_iff_exists.mp hl
    have hslot := h.slot p port l hp hin hl
    rw [Graph.slotOf?, Graph.slotId?, hp, Option.bind_some, Port.slot?, hl,
      Option.map_some, Option.bind_some, hslot]
    split <;> rfl
  · -- one of the two ends of a slot is an input
    obtain ⟨p, q, port, hp, hdir, hpq, hends⟩ := hlinked.slot hs
    obtain ⟨-, -, out, inp, hout, hinp, hne, -⟩ := hlinked.peer hpq
    obtain rfl := Option.some.inj (hp.symm.trans hout)
    refine ⟨q, inp, hinp, ?_, (hends q).mpr (Or.inr rfl)⟩
    cases hd' : inp.direction
    · rfl
    · exact absurd (hd'.trans hdir.symm) hne
  · rw [ha]
    exact forall₂_of_resolveSteps hscript

/-- Every accepted description whose ports can be counted is represented by the
assembly that is built from it. -/
theorem exists_represents (hvalid : d.validate = .ok ())
    (hports : d.portTotal < 4294967296) :
    ∃ a : Assembly τ, build d = .ok a ∧ a.Represents d := by
  obtain ⟨a, ha⟩ := exists_build (τ := τ) (Nat.le_of_lt hports) hvalid
  exact ⟨a, ha, represents_of_build ha⟩

/-- Two sources that are mixed into a sink. -/
theorem exists_represents_fanIn :
    ∃ a : Assembly Empty, build Catalogue.fanIn = .ok a ∧
      a.Represents Catalogue.fanIn :=
  exists_represents (by decide +kernel) (by decide)

end Assembly

end MediaGraph

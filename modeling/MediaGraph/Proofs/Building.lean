/-
What is built from a description.

* `NodeSpec.plan`, `NodeSpec.planUpTo`: the plan of a node of a description, and
  that of its first ports;
* `Graph.portAt?`, `Assembly.resolve_eq_ok`: the port at a place of the description,
  and that of a reference, which is read back from its number;
* `Assembly.follows_addSpecs`, `Assembly.follows_connects`,
  `Assembly.follows_primes`: the nodes, the links and the requests of the
  sinks;
* `Assembly.follows_of_build`: the graph of an accepted description follows
  the plans of its nodes and its links, and its sinks ask for data;
* `Catalogue.exists_build`: every bundled description can be built, with all
  ports linked.
-/
import MediaGraph.Assembly
import MediaGraph.Proofs.Plans
import MediaGraph.Proofs.Validity

namespace MediaGraph

/-! ### The nodes of a description -/

/-- The plan of a node of a description. -/
def NodeSpec.plan {τ : Type} (spec : NodeSpec) : Plan (Adapter τ) where
  processor := Assembly.processorOf spec
  inputs := (List.range spec.inputCount).map spec.isOptional
  outputs := spec.outputCount
  flags := ⟨spec.async⟩
  requiredIn := spec.requiredCount

/-- The plan of a node that has got its first `i` inputs and `j` outputs and no
settings yet. -/
def NodeSpec.planUpTo {τ : Type} (spec : NodeSpec) (i j : Nat) :
    Plan (Adapter τ) where
  processor := Assembly.processorOf spec
  inputs := (List.range i).map spec.isOptional
  outputs := j
  flags := {}
  requiredIn := (List.range i).countP fun i => !spec.isOptional i

namespace Assembly

variable {τ : Type} {g g' : Graph (Adapter τ)} {plans : List (Plan (Adapter τ))}
  {r : Nat → Nat → Prop} {asked : NodeId → Bool} {n : NodeId}

/-- One more input is added. -/
lemma follows_addInput {spec : NodeSpec} {i : Nat} {u : PUnit}
    (h : g.Follows (plans ++ [spec.planUpTo i 0]) r asked)
    (hok : (discard (Graph.addPort ⟨plans.length⟩ .input ⟨spec.isOptional i⟩)).run g =
      (.ok u, g')) :
    g'.Follows (plans ++ [spec.planUpTo (i + 1) 0]) r asked := by
  obtain ⟨p, g₁, hp, hpure⟩ := Edit.run_bind_ok (m := Graph.addPort _ _ _) hok
  obtain ⟨-, rfl⟩ := Edit.run_pure_ok hpure
  have hplan : (spec.planUpTo (i + 1) 0 : Plan (Adapter τ)) =
      { spec.planUpTo i 0 with
        inputs := (List.range i).map spec.isOptional ++ [spec.isOptional i]
        requiredIn := if spec.isOptional i = false then
          ((List.range i).countP fun i => !spec.isOptional i) + 1
          else (List.range i).countP fun i => !spec.isOptional i } := by
    cases ho : spec.isOptional i <;> simp [NodeSpec.planUpTo, List.range_succ, ho]
  rw [hplan]
  exact h.addInput hp

/-- One more output is added. -/
lemma follows_addOutput {spec : NodeSpec} {i j : Nat} {u : PUnit}
    (h : g.Follows (plans ++ [spec.planUpTo i j]) r asked)
    (hok : (discard (Graph.addPort ⟨plans.length⟩ .output {})).run g = (.ok u, g')) :
    g'.Follows (plans ++ [spec.planUpTo i (j + 1)]) r asked := by
  obtain ⟨p, g₁, hp, hpure⟩ := Edit.run_bind_ok (m := Graph.addPort _ _ _) hok
  obtain ⟨-, rfl⟩ := Edit.run_pure_ok hpure
  exact h.addOutput hp

/-- A node of the description is added with its ports and settings. -/
lemma follows_addSpec (h : g.Follows plans r asked) {spec : NodeSpec}
    (hok : (addSpec spec).run g = (.ok n, g')) :
    n = ⟨plans.length⟩ ∧ g'.Follows (plans ++ [spec.plan]) r asked := by
  obtain ⟨n₁, g₁, hadd, hok⟩ := Edit.run_bind_ok hok
  obtain ⟨rfl, h₁⟩ := h.addNode hadd
  obtain ⟨⟨⟩, g₂, hins, hok⟩ := Edit.run_bind_ok hok
  -- the inputs, one after the other
  have h₂ := Edit.run_forM_range
    (P := fun i g => g.Follows (plans ++ [spec.planUpTo i 0]) r asked)
    hins h₁ fun _ _ _ _ => follows_addInput
  obtain ⟨⟨⟩, g₃, houts, hok⟩ := Edit.run_bind_ok hok
  have h₃ := Edit.run_forM_range
    (P := fun j g => g.Follows (plans ++ [spec.planUpTo spec.inputCount j]) r asked)
    houts h₂ fun _ _ _ _ => follows_addOutput
  -- the flags, and then the override
  rcases hk : spec.requiredIn with _ | k
  · rw [hk] at hok
    simp only at hok
    split at hok
    · rename_i hasync
      obtain ⟨⟨⟩, g₄, hset, hok⟩ := Edit.run_bind_ok hok
      obtain ⟨rfl, rfl⟩ := Edit.run_pure_ok hok
      exact ⟨rfl, by
        simpa [NodeSpec.plan, NodeSpec.planUpTo, NodeSpec.requiredCount, hk,
          hasync] using h₃.setFlags hset⟩
    · rename_i hasync
      obtain ⟨rfl, rfl⟩ := Edit.run_pure_ok hok
      exact ⟨rfl, by
        simpa [NodeSpec.plan, NodeSpec.planUpTo, NodeSpec.requiredCount, hk,
          hasync] using h₃⟩
  · rw [hk] at hok
    simp only at hok
    split at hok
    · rename_i hasync
      obtain ⟨⟨⟩, g₄, hset, hok⟩ := Edit.run_bind_ok hok
      obtain ⟨⟨⟩, g₅, hover, hok⟩ := Edit.run_bind_ok hok
      obtain ⟨rfl, rfl⟩ := Edit.run_pure_ok hok
      exact ⟨rfl, by
        simpa [NodeSpec.plan, NodeSpec.planUpTo, NodeSpec.requiredCount, hk,
          hasync] using (h₃.setFlags hset).setRequiredIn hover⟩
    · rename_i hasync
      obtain ⟨⟨⟩, g₅, hover, hok⟩ := Edit.run_bind_ok hok
      obtain ⟨rfl, rfl⟩ := Edit.run_pure_ok hok
      exact ⟨rfl, by
        simpa [NodeSpec.plan, NodeSpec.planUpTo, NodeSpec.requiredCount, hk,
          hasync] using h₃.setRequiredIn hover⟩

/-- The names of nodes with the handles that they get from `k` on. -/
def named (k : Nat) (specs : List NodeSpec) : List (String × NodeId) :=
  (specs.zipIdx k).map fun (spec, i) => (spec.name, ⟨i⟩)

/-- The nodes of a description are added. -/
lemma follows_addSpecs (h : g.Follows plans r asked) {specs : List NodeSpec}
    {nodes : List (String × NodeId)}
    (hok : (addSpecs specs).run g = (.ok nodes, g')) :
    nodes = named plans.length specs ∧
      g'.Follows (plans ++ specs.map NodeSpec.plan) r asked := by
  induction specs generalizing g plans nodes with
  | nil =>
      obtain ⟨rfl, rfl⟩ := Edit.run_pure_ok hok
      exact ⟨rfl, by simpa using h⟩
  | cons spec specs ih =>
      rw [addSpecs, List.mapM_cons] at hok
      obtain ⟨x, g₁, hx, hok⟩ := Edit.run_bind_ok hok
      obtain ⟨n, g₂, hn, hpure⟩ := Edit.run_bind_ok hx
      obtain ⟨rfl, rfl⟩ := Edit.run_pure_ok hpure
      obtain ⟨rest, g₃, hrest, hpure⟩ := Edit.run_bind_ok hok
      obtain ⟨rfl, rfl⟩ := Edit.run_pure_ok hpure
      obtain ⟨rfl, h₁⟩ := follows_addSpec h hn
      obtain ⟨rfl, h₂⟩ := ih h₁ hrest
      exact ⟨by simp [named], by simpa using h₂⟩

/-- A node of the description has the ports that it asks for. -/
lemma size_portsOf_of_follows {node : Node (Adapter τ)} {spec : NodeSpec}
    (h : node.Follows g spec.plan) (dir : Direction) :
    (node.portsOf dir).size = spec.portCount dir := by
  cases dir
  · simpa [NodeSpec.plan, Node.portsOf, NodeSpec.portCount] using h.inputs
  · simpa [NodeSpec.plan, Node.portsOf, NodeSpec.portCount] using h.outputs

end Assembly

/-! ### Ports at places -/

namespace Graph

variable {σ : Type} {g : Graph σ} {p : PortId} {dir dir' : Direction}
  {place place' : PortPlace}

/-- The port of a node at a place among those of its direction. -/
def portAt? (g : Graph σ) (dir : Direction) (place : PortPlace) : Option PortId :=
  (g.nodes.get? ⟨place.node⟩).bind fun node => (node.portsOf dir)[place.index]?

namespace WellFormed

/-- A port lists the node that it is listed by. -/
lemma portAt?_eq_some (h : g.WellFormed) (hp : g.portAt? dir place = some p) :
    ∃ port, g.ports.get? p = some port ∧ port.owner = ⟨place.node⟩ ∧
      port.direction = dir := by
  obtain ⟨node, hnode, hk⟩ := Option.bind_eq_some_iff.mp hp
  have hmem : p ∈ g.layout.portsOf ⟨place.node⟩ dir := by
    rw [h.shows.portsOf hnode]
    simpa using Array.mem_of_getElem? hk
  obtain ⟨port', hport', hown, hdir⟩ := h.layout.mem_portsOf.mp hmem
  obtain ⟨port, hport, rfl⟩ := h.shows.exists_port hport'
  exact ⟨port, hport, hown, hdir⟩

/-- Different places have different ports. -/
lemma portAt?_inj (h : g.WellFormed) (hp : g.portAt? dir place = some p)
    (hp' : g.portAt? dir' place' = some p) : dir = dir' ∧ place = place' := by
  obtain ⟨port, hport, hown, hdir⟩ := h.portAt?_eq_some hp
  obtain ⟨port', hport', hown', hdir'⟩ := h.portAt?_eq_some hp'
  obtain rfl := Option.some.inj (hport.symm.trans hport')
  have hnodes : place.node = place'.node := by
    simpa using hown.symm.trans hown'
  obtain rfl : dir = dir' := hdir.symm.trans hdir'
  obtain ⟨node, hnode, hk⟩ := Option.bind_eq_some_iff.mp hp
  obtain ⟨node', hnode', hk'⟩ := Option.bind_eq_some_iff.mp hp'
  rw [← hnodes, hnode] at hnode'
  cases hnode'
  have hnodup := h.layout.nodup ⟨place.node⟩ dir
  rw [h.shows.portsOf hnode] at hnodup
  have hindex : place.index = place'.index := by
    refine (List.getElem?_inj ?_ hnodup).mp ?_
    · simpa using (Array.getElem?_eq_some_iff.mp hk).1
    · simp only [Array.getElem?_toList, hk, hk']
  refine ⟨rfl, ?_⟩
  obtain ⟨i, j⟩ := place
  obtain ⟨i', j'⟩ := place'
  simp_all

/-- As long as there are numbers enough, the port at a place is read back. -/
lemma wrapped_of_portAt? (h : g.WellFormed) (hsize : g.ports.size ≤ Handle.bound)
    (hp : g.portAt? dir place = some p) : p.wrapped = p := by
  obtain ⟨port, hport, -⟩ := h.portAt?_eq_some hp
  exact Arena.wrapped_of_get? hsize hport

end WellFormed

/-- A link makes no ports. -/
lemma size_ports_link {g' : Graph σ} {q : PortId} {s : SlotId}
    (hok : (link p q).run g = (.ok s, g')) : g'.ports.size = g.ports.size := by
  simp only [link, ExceptT.run] at hok
  repeat' split at hok
  all_goals
    cases hok
    try simp [modifyPort]

/-- There is a port at every place of the description. -/
lemma Follows.exists_portAt? {τ : Type} {g : Graph (Adapter τ)} {d : Description}
    {r : Nat → Nat → Prop} {asked : NodeId → Bool} {spec : NodeSpec}
    (h : g.Follows (d.nodes.map NodeSpec.plan) r asked)
    (hspec : d.nodes[place.node]? = some spec) (hlt : place.index < spec.portCount dir) :
    ∃ p, g.portAt? dir place = some p := by
  obtain ⟨node, hnode, hfol⟩ := h.node place.node spec.plan (by simp [hspec])
  rw [← Assembly.size_portsOf_of_follows hfol dir] at hlt
  exact ⟨(node.portsOf dir)[place.index], by simp [portAt?, hnode, hlt]⟩

end Graph

namespace Assembly

variable {τ : Type} {g : Graph (Adapter τ)} {r : Nat → Nat → Prop}
  {asked : NodeId → Bool} {d : Description} {a a' : Assembly τ}

/-! ### The links of a description -/

/-- The node of a name is the first that bears it. -/
lemma lookup_named (k : Nat) (specs : List NodeSpec) (name : String) :
    (named k specs).lookup name =
      (specs.findIdx? (·.name = name)).map fun i => ⟨k + i⟩ := by
  induction specs generalizing k with
  | nil => rfl
  | cons spec specs ih =>
      have hcons : named k (spec :: specs) =
          (spec.name, ⟨k⟩) :: named (k + 1) specs := rfl
      rw [hcons, List.lookup_cons, List.findIdx?_cons, ih]
      by_cases hn : spec.name = name
      · simp [hn]
      · have hne : (name == spec.name) = false := by simpa using Ne.symm hn
        simp only [hne, hn, decide_false, Bool.false_eq_true, if_false,
          Option.map_map]
        congr 1
        funext i
        simp [Nat.add_assoc, Nat.add_comm 1]

/-- A reference stands for the port at the place that it names, read back from its
number. -/
lemma resolve_eq_ok (hd : d.Accepted)
    (h : a.graph.Follows (d.nodes.map NodeSpec.plan) r asked)
    (hn : a.nodes = named 0 d.nodes) {dir : Direction} {reference : String} {q : PortId} :
    a.resolve dir reference = .ok q ↔ ∃ place p, d.resolve dir reference = .ok place ∧
      a.graph.portAt? dir place = some p ∧ p.wrapped = q := by
  constructor
  · intro hok
    rw [resolve] at hok
    split at hok
    · cases hok
    · rename_i ref href
      rw [nodeId?, hn, lookup_named] at hok
      rcases hi : d.nodes.findIdx? (·.name = ref.node) with _ | i
      · simp [hi] at hok
      · obtain ⟨hlt, hname, -⟩ := List.findIdx?_eq_some_iff_getElem.mp hi
        have hspec : d.nodes[i]? = some d.nodes[i] := List.getElem?_eq_getElem hlt
        obtain ⟨node, hnode, hfol⟩ := h.node i (d.nodes[i]).plan (by simp [hspec])
        have hsize := size_portsOf_of_follows hfol dir
        simp only [hi, Option.map_some, Nat.zero_add, hnode, Option.elim_some] at hok
        split at hok
        · rename_i p hp
          cases hok
          refine ⟨⟨i, ref.index⟩, p, hd.resolve_eq_ok.mpr
            ⟨ref, d.nodes[i], href, hspec, by simpa using hname, rfl, ?_⟩, ?_, rfl⟩
          · rw [← hsize]
            exact (Array.getElem?_eq_some_iff.mp hp).1
          · simp [Graph.portAt?, hnode, hp]
        · cases hok
  · rintro ⟨place, p, hplace, hp, rfl⟩
    obtain ⟨ref, spec, href, hspec, hname, hindex, -⟩ := hd.resolve_eq_ok.mp hplace
    obtain ⟨node, hnode, hk⟩ := Option.bind_eq_some_iff.mp hp
    have hid : a.nodeId? ref.node = some ⟨place.node⟩ := by
      rw [nodeId?, hn, lookup_named, ← hname, hd.findIdx? hspec]
      simp
    rw [hindex] at hk
    simp [resolve, href, hid, hnode, hk]

/-- As long as there are numbers enough, it is the port at that place. -/
lemma resolve_eq_ok_of_size (hd : d.Accepted)
    (h : a.graph.Follows (d.nodes.map NodeSpec.plan) r asked)
    (hn : a.nodes = named 0 d.nodes) (hsize : a.graph.ports.size ≤ Handle.bound)
    {dir : Direction} {reference : String} {p : PortId} :
    a.resolve dir reference = .ok p ↔ ∃ place, d.resolve dir reference = .ok place ∧
      a.graph.portAt? dir place = some p := by
  rw [resolve_eq_ok hd h hn]
  constructor
  · rintro ⟨place, q, hplace, hq, rfl⟩
    exact ⟨place, hplace, by rw [h.wf.wrapped_of_portAt? hsize hq, hq]⟩
  · rintro ⟨place, hplace, hp⟩
    exact ⟨place, p, hplace, hp, h.wf.wrapped_of_portAt? hsize hp⟩

/-- A step that may fail is carried out before what depends on it. -/
lemma bind_ok {ε α β : Type} {m : Except ε α} {f : α → Except ε β} {y : β}
    (h : m >>= f = .ok y) : ∃ x, m = .ok x ∧ f x = .ok y := by
  cases m with
  | error e => cases h
  | ok x => exact ⟨x, rfl, h⟩

lemma edit_ok {α : Type} {action : Edit (Adapter τ) α} {x : α × Assembly τ}
    (h : a.edit action = .ok x) :
    action.run a.graph = (.ok x.1, x.2.graph) ∧ x.2 = { a with graph := x.2.graph }
    := by
  rw [edit] at h
  split at h
  · rename_i y g hr
    cases h
    exact ⟨hr, rfl⟩
  · cases h

lemma edit_of_run {α : Type} {action : Edit (Adapter τ) α} {x : α}
    (h : action.run a.graph = (.ok x, g)) : a.edit action = .ok (x, { a with graph := g }) := by
  rw [edit, h]

lemma flawed_ok {α : Type} {r : Except Flaw α} {x : α} (h : flawed r = .ok x) :
    r = .ok x := by
  cases r with
  | error e => cases h
  | ok y =>
      cases h
      rfl

/-- A link changes no more than the graph, and that by linking the ports of its
references. -/
lemma connect_ok {l : LinkSpec} (hok : a.connect l = .ok a') :
    ∃ p q s, a.resolve .output l.source = .ok p ∧ a.resolve .input l.target = .ok q ∧
      (Graph.link p q).run a.graph = (.ok s, a'.graph) ∧
      a' = { a with graph := a'.graph } := by
  obtain ⟨p, hp, hok⟩ := bind_ok hok
  obtain ⟨q, hq, hok⟩ := bind_ok hok
  obtain ⟨⟨s, b⟩, hb, hok⟩ := bind_ok hok
  cases hok
  obtain ⟨hlink, hfields⟩ := edit_ok hb
  exact ⟨p, q, s, flawed_ok hp, flawed_ok hq, hlink, hfields⟩

lemma size_ports_connect {l : LinkSpec} (hok : a.connect l = .ok a') :
    a'.graph.ports.size = a.graph.ports.size := by
  obtain ⟨_, _, _, -, -, hlink, -⟩ := connect_ok hok
  exact Graph.size_ports_link hlink

lemma size_ports_connects {links : List LinkSpec} (hok : links.foldlM connect a = .ok a') :
    a'.graph.ports.size = a.graph.ports.size := by
  induction links generalizing a with
  | nil =>
      cases hok
      rfl
  | cons l links ih =>
      rw [List.foldlM_cons] at hok
      obtain ⟨b, hb, hok⟩ := bind_ok hok
      rw [ih hok, size_ports_connect hb]

/-- As long as there are numbers enough, the ports are those at the places that the
description resolves the references to. -/
lemma exists_ends_of_connect (hd : d.Accepted)
    (h : a.graph.Follows (d.nodes.map NodeSpec.plan) r asked)
    (hn : a.nodes = named 0 d.nodes) (hsize : a.graph.ports.size ≤ Handle.bound)
    {l : LinkSpec} (hok : a.connect l = .ok a') :
    ∃ e p q s, d.Resolves l e ∧ a.graph.portAt? .output e.1 = some p ∧
      a.graph.portAt? .input e.2 = some q ∧
      (Graph.link p q).run a.graph = (.ok s, a'.graph) := by
  obtain ⟨p, q, s, hp, hq, hlink, -⟩ := connect_ok hok
  obtain ⟨source, hsource, hpat⟩ := (resolve_eq_ok_of_size hd h hn hsize).mp hp
  obtain ⟨target, htarget, hqat⟩ := (resolve_eq_ok_of_size hd h hn hsize).mp hq
  exact ⟨(source, target), p, q, s, ⟨hsource, htarget⟩, hpat, hqat, hlink⟩

/-- One link is made. -/
lemma follows_connect (hd : d.Accepted)
    (h : a.graph.Follows (d.nodes.map NodeSpec.plan) d.Linked fun _ => false)
    (hn : a.nodes = named 0 d.nodes) (hsize : a.graph.ports.size ≤ Handle.bound)
    {l : LinkSpec} (hl : l ∈ d.links) (hok : a.connect l = .ok a') :
    a'.graph.Follows (d.nodes.map NodeSpec.plan) d.Linked (fun _ => false) ∧
      a' = { a with graph := a'.graph } := by
  obtain ⟨_, _, _, -, -, -, hfields⟩ := connect_ok hok
  obtain ⟨e, p, q, s, hends, hp, hq, hlink⟩ := exists_ends_of_connect hd h hn hsize hok
  refine ⟨h.addLink hlink fun out inp hout hinp => ?_, hfields⟩
  obtain ⟨_, hout', hpo, -⟩ := h.wf.portAt?_eq_some hp
  obtain rfl := Option.some.inj (hout.symm.trans hout')
  obtain ⟨_, hinp', hqo, -⟩ := h.wf.portAt?_eq_some hq
  obtain rfl := Option.some.inj (hinp.symm.trans hinp')
  exact ⟨l, hl, e.1, e.2, hends.1, hends.2, by rw [hpo], by rw [hqo]⟩

/-- All links are made. -/
lemma follows_connects (hd : d.Accepted) {links : List LinkSpec}
    (hl : ∀ l ∈ links, l ∈ d.links)
    (h : a.graph.Follows (d.nodes.map NodeSpec.plan) d.Linked fun _ => false)
    (hn : a.nodes = named 0 d.nodes) (hsize : a.graph.ports.size ≤ Handle.bound)
    (hok : links.foldlM connect a = .ok a') :
    a'.graph.Follows (d.nodes.map NodeSpec.plan) d.Linked (fun _ => false) ∧
      a' = { a with graph := a'.graph } := by
  induction links generalizing a with
  | nil =>
      cases hok
      exact ⟨h, rfl⟩
  | cons l links ih =>
      rw [List.foldlM_cons] at hok
      obtain ⟨b, hb, hok⟩ := bind_ok hok
      obtain ⟨hfollows, hfields⟩ := follows_connect hd h hn hsize (hl l (by simp)) hb
      obtain ⟨ha', hfields'⟩ := ih (fun l h => hl l (by simp [h])) hfollows
        (by rw [hfields]; exact hn) (by rwa [size_ports_connect hb]) hok
      exact ⟨ha', by rw [hfields', hfields]⟩

/-! ### Sinks ask for data -/

lemma mem_named {k : Nat} {specs : List NodeSpec} {x : String × NodeId} :
    x ∈ named k specs ↔
      ∃ i spec, specs[i]? = some spec ∧ x = (spec.name, ⟨k + i⟩) := by
  simp only [named, List.mem_map, Prod.exists, List.mem_zipIdx_iff_le_and_getElem?_sub]
  constructor
  · rintro ⟨spec, i, ⟨hk, hi⟩, rfl⟩
    exact ⟨i - k, spec, hi, by rw [Nat.add_sub_cancel' hk]⟩
  · rintro ⟨i, spec, hi, rfl⟩
    exact ⟨spec, k + i, ⟨by omega, by simpa using hi⟩, rfl⟩

/-- The nodes of the description whose name stands for a sink are its sinks. -/
lemma mem_sinksOf (hd : d.Accepted) {n : NodeId} :
    n ∈ (sinksOf d (named 0 d.nodes)).map Prod.snd ↔ d.isSink n = true := by
  have hname : ∀ {i : Nat} {spec : NodeSpec}, d.nodes[i]? = some spec →
      d.node? spec.name = some spec := by
    intro i spec hi
    obtain ⟨hlt, rfl⟩ := List.getElem?_eq_some_iff.mp hi
    rw [Description.node?, List.find?_eq_some_iff_getElem]
    refine ⟨by simp, i, hlt, rfl, fun j hj => ?_⟩
    simpa using hd.unique hi (List.getElem?_eq_getElem _) hj
  simp only [sinksOf, List.mem_map, List.mem_filter, mem_named, Description.isSink,
    Nat.zero_add]
  constructor
  · rintro ⟨x, ⟨⟨i, spec, hi, rfl⟩, hk⟩, rfl⟩
    rw [hname hi] at hk
    simpa [hi] using hk
  · intro hk
    rcases hi : d.nodes[n.index]? with _ | spec
    · simp [hi] at hk
    · rw [hi] at hk
      exact ⟨(spec.name, n), ⟨⟨n.index, spec, hi, rfl⟩, by simpa [hname hi] using hk⟩,
        rfl⟩

/-- The sinks of a description ask for data. -/
lemma follows_primes {sinks : List NodeId}
    (h : g.Follows (d.nodes.map NodeSpec.plan) r asked)
    (hs : ∀ n ∈ sinks, d.isSink n = true) :
    (sinks.foldl prime g).Follows (d.nodes.map NodeSpec.plan) r
      fun m => asked m || decide (m ∈ sinks) := by
  induction sinks generalizing g asked with
  | nil => simpa using h
  | cons n sinks ih =>
      have hn := hs n (by simp)
      rcases hi : d.nodes[n.index]? with _ | spec
      · simp [Description.isSink, hi] at hn
      · have hk : spec.kind = .sink := by simpa [Description.isSink, hi] using hn
        obtain ⟨node, hnode, hfol⟩ := h.node n.index spec.plan (by simp [hi])
        have hsize : node.inputs.size = 1 := by
          simpa [NodeSpec.plan, NodeSpec.inputCount, hk] using hfol.inputs
        obtain ⟨p, hp⟩ := Array.size_eq_one_iff.mp hsize
        have hprime : prime g n = g.modifySlotOf p Slot.request := by
          have hnode : g.nodes.get? n = some node := hnode
          simp [prime, hnode, hp]
        have := ih (hprime ▸ h.prime hnode hp) fun m hm => hs m (by simp [hm])
        simpa [Bool.or_assoc] using this

lemma ports_primes (sinks : List NodeId) (g : Graph (Adapter τ)) :
    (sinks.foldl prime g).ports = g.ports := by
  induction sinks generalizing g with
  | nil => rfl
  | cons n sinks ih =>
      rw [List.foldl_cons, ih, prime]
      split
      · rw [Graph.modifySlotOf]
        split <;> rfl
      · rfl

/-- What a description is built from, one part after the other: its nodes, whose ports
have numbers enough, its links, the requests of its sinks and its script. -/
lemma exists_parts (hok : build d = .ok a) :
    d.validate = .ok () ∧ ∃ (g : Graph (Adapter τ)) (wired : Assembly τ)
        (script : List Step),
      (addSpecs d.nodes).run .empty = (.ok (named 0 d.nodes), g) ∧
      g.ports.size ≤ Handle.bound ∧
      d.links.foldlM connect {
        name := d.name
        graph := g
        nodes := named 0 d.nodes
        sinkNodes := sinksOf d (named 0 d.nodes) } = .ok wired ∧
      d.script.mapM (resolveStep { wired with
        graph := ((sinksOf d (named 0 d.nodes)).map Prod.snd).foldl prime
          wired.graph }) = .ok script ∧
      a = { wired with
        graph := ((sinksOf d (named 0 d.nodes)).map Prod.snd).foldl prime wired.graph
        script } := by
  rw [build] at hok
  split at hok
  · cases hok
  · rename_i hvalid
    obtain ⟨⟨nodes, peopled⟩, hpeopled, hok⟩ := bind_ok hok
    obtain ⟨wired, hwired, hok⟩ := bind_ok hok
    split at hok
    · cases hok
    · rename_i hsize
      obtain ⟨script, hscript, hok⟩ := bind_ok hok
      cases hok
      obtain ⟨hrun, hfields⟩ := edit_ok hpeopled
      simp only at hrun hfields
      obtain ⟨rfl, -⟩ := follows_addSpecs
        (Graph.follows_empty d.Linked fun _ => false) hrun
      rw [hfields] at hwired
      rw [size_ports_connects hwired] at hsize
      exact ⟨hvalid, peopled.graph, wired, script, hrun, Nat.le_of_not_lt hsize, hwired,
        hscript, rfl⟩

/-- All ports of a graph that was built have a number of their own. -/
lemma size_ports_of_build (hok : build d = .ok a) : a.graph.ports.size ≤ Handle.bound := by
  obtain ⟨-, g, wired, script, -, hsize, hwired, -, rfl⟩ := exists_parts hok
  rw [ports_primes, size_ports_connects hwired]
  exact hsize

/-- The graph of an accepted description follows the plans of its nodes and
its links, and its sinks ask for data. -/
theorem follows_of_build (hok : build d = .ok a) :
    d.Accepted ∧ a.graph.Follows (d.nodes.map NodeSpec.plan) d.Linked d.isSink
    := by
  obtain ⟨hvalid, g, wired, script, hrun, hsize, hwired, -, rfl⟩ := exists_parts hok
  have hd := Description.accepted_of_validate hvalid
  obtain ⟨-, h₁⟩ := follows_addSpecs
    (Graph.follows_empty d.Linked fun _ => false) hrun
  obtain ⟨h₂, -⟩ :=
    follows_connects hd (fun l hl => hl) (by simpa using h₁) rfl hsize hwired
  have h₃ := follows_primes h₂ fun n hn => (mem_sinksOf hd).mp hn
  have hasked : d.isSink = fun n =>
      false || decide (n ∈ (sinksOf d (named 0 d.nodes)).map Prod.snd) := by
    funext n
    rw [Bool.false_or, Bool.eq_iff_iff, decide_eq_true_iff, mem_sinksOf hd]
  rw [hasked]
  exact ⟨hd, h₃⟩

end Assembly

/-- Every bundled description can be built, and all ports of its graph are
linked. -/
lemma Catalogue.exists_build {d : Description} (hd : d ∈ Catalogue.all) :
    ∃ a : Assembly Empty, Assembly.build d = .ok a ∧
      ∀ p port, a.graph.ports.get? p = some port → port.link.isSome = true := by
  have hall : ∀ d ∈ Catalogue.all, ((Assembly.build (τ := Empty) d).toOption.any
      fun a => a.graph.ports.values.all (·.link.isSome)) = true := by
    decide +kernel
  have hd := hall d hd
  rcases hbuild : Assembly.build (τ := Empty) d with e | a
  · simp [hbuild, Except.toOption] at hd
  · refine ⟨a, rfl, fun p port hp => ?_⟩
    simp only [hbuild, Except.toOption, Option.any_some, List.all_eq_true] at hd
    exact hd port (Arena.mem_values hp)

end MediaGraph

/-
The bundled descriptions: small graphs that are always at hand.

* `Catalogue.all`: the descriptions.
* `Catalogue.find?`: the description of a name, whatever its case, with
  hyphens for underscores if one likes.
-/
import MediaGraph.Description.Basic

namespace MediaGraph.Catalogue

/-- Sixteen pulls of the sink `out`. -/
def pulls : List StepSpec := [⟨.pull, "out", 16⟩]

/-- One source feeds one sink. -/
def linear : Description where
  name := "linear"
  summary := some "One source feeding one sink, driven by sink pulls"
  nodes := [
    { name := "src", kind := .source, buffers := some 2 },
    { name := "out", kind := .sink }]
  links := [⟨"src", "out"⟩]
  script := pulls

/-- Two sources are mixed. -/
def fanIn : Description where
  name := "fan_in"
  summary := some "Two sources into a two-input mixer, driven by sink pulls"
  nodes := [
    { name := "left", kind := .source },
    { name := "right", kind := .source },
    { name := "mix", kind := .mixer, inputs := some 2 },
    { name := "out", kind := .sink }]
  links := [⟨"left", "mix:0"⟩, ⟨"right", "mix:1"⟩, ⟨"mix", "out"⟩]
  script := pulls

/-- Three sources are mixed. -/
def fanIn3 : Description where
  name := "fan_in3"
  summary := some "Three sources into a three-input mixer, driven by sink pulls"
  nodes := [
    { name := "a", kind := .source },
    { name := "b", kind := .source },
    { name := "c", kind := .source },
    { name := "mix", kind := .mixer, inputs := some 3 },
    { name := "out", kind := .sink }]
  links := [⟨"a", "mix:0"⟩, ⟨"b", "mix:1"⟩, ⟨"c", "mix:2"⟩, ⟨"mix", "out"⟩]
  script := pulls

/-- A source pushes on its own. -/
def pushChain : Description where
  name := "push_chain"
  summary :=
    some "A source pushing unsolicited data through a mixer into a sink"
  nodes := [
    { name := "capture", kind := .source, buffers := some 2 },
    { name := "mix", kind := .mixer, inputs := some 1 },
    { name := "out", kind := .sink }]
  links := [⟨"capture", "mix"⟩, ⟨"mix", "out"⟩]
  script := [⟨.push, "capture", 16⟩]

/-- A mixer runs on its main input alone. -/
def optionalAux : Description where
  name := "optional_aux"
  summary := some "A main and an optional auxiliary source into a mixer"
  nodes := [
    { name := "main", kind := .source },
    { name := "aux", kind := .source },
    { name := "mix", kind := .mixer, inputs := some 2, optionalInputs := [1] },
    { name := "out", kind := .sink }]
  links := [⟨"main", "mix:0"⟩, ⟨"aux", "mix:1"⟩, ⟨"mix", "out"⟩]
  script := pulls

/-- The bundled descriptions. -/
def all : List Description := [linear, fanIn, fanIn3, pushChain, optionalAux]

/-- The names of the bundled descriptions. -/
def names : List String := all.map (·.name)

/-- A name without outer blanks, in lower case, with underscores for hyphens.
Lowering ASCII letters is enough: no other capital lowers to a letter of a
bundled name. -/
def normalize (name : String) : String :=
  String.ofList ((Text.trim name.toList).map fun c =>
    if c = '-' then '_' else c.toLower)

/-- The bundled description of a name. -/
def find? (name : String) : Option Description :=
  all.find? (normalize ·.name = normalize name)

/-- Whether a name is that of a bundled description. -/
def isBundled (name : String) : Bool :=
  names.any (normalize · = normalize name)

end MediaGraph.Catalogue

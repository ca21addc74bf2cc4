/-
Arguments of the command line.

Options may stand before or after the other arguments of their command, short
ones may be joined, and `--` ends them.

* `Command`: what can be asked for.
* `Flag`, `Scope`: the options, and the commands that have them.
* `readAll?`: the options and words of one command.
* `Command.ofArguments?`: the command that arguments ask for; `none` if they
  are not understood.
-/
import MediaGraph.Text.Decimal

namespace MediaGraph.CommandLine

/-- What can be asked for. -/
inductive Command where
  /-- Run the script of a graph a number of times. -/
  | run (graph : String) (rounds : Nat)
  /-- Check graphs. -/
  | validate (graphs : List String)
  /-- Show a graph. -/
  | inspect (graph : String) (json : Bool)
  /-- List the bundled graphs. -/
  | list
  /-- Print a bundled graph, or write it to a file. -/
  | print (graph : String) (path : Option String)
  | version
  | help
deriving DecidableEq, Repr

/-! ### Options -/

/-- The options of a command. -/
inductive Flag where
  | verbose
  | quiet
  | json
  | rounds
  | saveTo
  | version
  | help
deriving DecidableEq, Repr

/-- Whether an option has a value. -/
def Flag.takesValue : Flag → Bool
  | rounds => true
  | saveTo => true
  | _ => false

/-- The commands, and what may stand before one. -/
inductive Scope where
  | top
  | run
  | validate
  | inspect
  | graphs
deriving DecidableEq, Repr

/-- The options that a command has. -/
def Scope.flags : Scope → List Flag
  | top => [.verbose, .version, .help]
  | run => [.verbose, .help, .rounds, .quiet]
  | validate => [.verbose, .help]
  | inspect => [.verbose, .help, .json]
  | graphs => [.verbose, .help, .saveTo]

/-- The long name of an option. -/
def Flag.long : Flag → String
  | verbose => "verbose"
  | quiet => "quiet"
  | json => "json"
  | rounds => "repeat"
  | saveTo => "export"
  | version => "version"
  | help => "help"

/-- The letter of an option. -/
def Flag.short? : Flag → Option Char
  | verbose => some 'v'
  | quiet => some 'q'
  | json => none
  | rounds => some 'r'
  | saveTo => some 'e'
  | version => some 'V'
  | help => some 'h'

/-- The option of a long name. -/
def Scope.long? (s : Scope) (name : String) : Option Flag :=
  s.flags.find? (·.long = name)

/-- The option of a letter. -/
def Scope.short? (s : Scope) (c : Char) : Option Flag :=
  s.flags.find? (·.short? = some c)

/-- A number of rounds: an integer of 64 bits with a sign or without one that
fits into 32 bits. -/
def rounds? (text : String) : Option Nat :=
  match text.toList with
  | '-' :: cs => (Text.digits? Text.bound32 cs).filter (· = 0)
  | cs => Text.unsigned? Text.bound32 cs

/-! ### Arguments one after the other -/

/-- The arguments of one scope that were read so far. -/
structure Given where
  flags : List Flag := []
  rounds : Nat := 1
  path : Option String := none
  words : List String := []

/-- How reading goes on. -/
inductive Progress where
  /-- To the next argument. -/
  | next (given : Given)
  /-- To the next argument, which is the value of an option. -/
  | value (flag : Flag) (given : Given)
  /-- There is nothing more to know. -/
  | done (command : Command)

/-- Takes an option without a value; no option may be given twice. -/
def Given.flag? (g : Given) (f : Flag) : Option Progress :=
  match f with
  | .version => some (.done .version)
  | .help => some (.done .help)
  | _ =>
    if f ∈ g.flags then none
    else some (.next { g with flags := f :: g.flags })

/-- Takes an option with its value. -/
def Given.valued? (g : Given) (f : Flag) (value : String) : Option Given :=
  if f ∈ g.flags then none
  else
    let g := { g with flags := f :: g.flags }
    match f with
    | .rounds => (rounds? value).map fun n => { g with rounds := n }
    | .saveTo => if value = "" then none else some { g with path := some value }
    | _ => none

/-- Takes joined letters: the first option with a value takes the rest. -/
def Given.letters? (s : Scope) : List Char → Given → Option Progress
  | [], g => some (.next g)
  | c :: cs, g =>
    match s.short? c with
    | none => none
    | some f =>
      if f.takesValue then
        match cs with
        | [] => some (.value f g)
        | '=' :: v => (g.valued? f (String.ofList v)).map .next
        | v => (g.valued? f (String.ofList v)).map .next
      else
        match g.flag? f with
        | some (.next g) => letters? s cs g
        | other => other

/-- Takes a long option, perhaps with its value after an equals sign. -/
def Given.long? (s : Scope) (cs : List Char) (g : Given) : Option Progress :=
  let name := String.ofList (cs.takeWhile (· ≠ '='))
  match s.long? name, cs.dropWhile (· ≠ '=') with
  | none, _ => none
  | some f, [] => if f.takesValue then some (.value f g) else g.flag? f
  | some f, _ :: v =>
    if f.takesValue then (g.valued? f (String.ofList v)).map .next else none

/-- Whether an argument is no option: a lone hyphen is none. -/
def isWord (arg : String) : Bool :=
  match arg.toList with
  | ['-'] => true
  | '-' :: _ => false
  | _ => true

/-- The arguments of a command, all words after `--`. At most `limit` words
are taken. -/
def readAll? (s : Scope) (limit : Option Nat) :
    List String → Given → Option (Except Command Given)
  | [], g => some (.ok g)
  | arg :: rest, g =>
    let addWord (g : Given) (w : String) : Option Given :=
      if limit.any (· ≤ g.words.length) then none
      else some { g with words := g.words ++ [w] }
    if arg = "--" then (rest.foldlM addWord g).map .ok
    else if isWord arg then (addWord g arg).bind (readAll? s limit rest)
    else
      let progress := match arg.toList with
        | '-' :: '-' :: cs => g.long? s cs
        | _ :: cs => g.letters? s cs
        | [] => none
      match progress, rest with
      | none, _ => none
      | some (.done c), _ => some (.error c)
      | some (.next g), rest => readAll? s limit rest g
      | some (.value _ _), [] => none
      | some (.value f g), v :: rest =>
        if isWord v then (g.valued? f v).bind (readAll? s limit rest) else none

/-! ### Commands -/

namespace Command

/-- Reads the arguments of one command and makes the command of them. -/
def ofScope? (s : Scope) (limit : Option Nat) (args : List String)
    (make : Given → Option Command) : Option Command :=
  match readAll? s limit args {} with
  | none => none
  | some (.error c) => some c
  | some (.ok g) => make g

/-- The names of the commands. -/
def names : List String := ["run", "validate", "inspect", "graphs", "help"]

/-- A request for help names at most one command, since no command has commands
of its own. Options are not understood there. -/
def ofHelp? : List String → Option Command
  | [] => some .help
  | [name] => if name ∈ names then some .help else none
  | _ => none

/-- The command of a name with its arguments. -/
def ofName? (name : String) (args : List String) : Option Command :=
  match name with
  | "run" => ofScope? .run (some 1) args fun g =>
      g.words.head?.map fun graph => .run graph g.rounds
  | "validate" => ofScope? .validate none args fun g =>
      if g.words = [] then none else some (.validate g.words)
  | "inspect" => ofScope? .inspect (some 1) args fun g =>
      g.words.head?.map fun graph => .inspect graph (.json ∈ g.flags)
  | "graphs" => ofScope? .graphs (some 1) args fun g =>
      match g.words.head?, g.path with
      | none, none => some .list
      | none, some _ => none
      | some graph, path => some (.print graph path)
  | "help" => ofHelp? args
  | _ => none

/-- The command that arguments ask for: options of the program, the name of a
command, and the arguments of the command. -/
def ofArguments? (args : List String) : Option Command :=
  let isOption := fun arg => !isWord arg && arg ≠ "--"
  match readAll? .top (some 0) (args.takeWhile isOption) {} with
  | none => none
  | some (.error c) => some c
  | some (.ok _) =>
    match args.dropWhile isOption with
    | [] => none
    | name :: rest => ofName? name rest

end Command

end MediaGraph.CommandLine

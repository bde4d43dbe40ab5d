import ClassSchema.CommandLine.Count
import ClassSchema.Expansion
import ClassSchema.Text.Terminal

/-!
# The arguments of the program

An invocation names a subcommand, with options for all of them before it and any of its options after it. An option is
written in full after two dashes or as one letter after one dash, where several letters may stand together. Its value
follows as the next argument, after `=`, or directly after the letter; a value that starts with a dash has to follow in
the same argument. `--model` takes all arguments up to the next that starts with a dash. After `--` every argument is
positional, and there are no positional arguments.

The arguments are read from left to right, and the first fault is reported. An option that waits for its values is
checked when the next option is met or the arguments end; a fault of the next argument itself comes before it.
-/

namespace ClassSchema

/-! ## Options and subcommands -/

/-- An option of the program. -/
inductive Opt where
  | model | root | out | maxDepth | strictTuples | verbose | quiet | help | version
  deriving DecidableEq, Repr

namespace Opt

/-- The name of an option after two dashes. -/
def long : Opt → String
  | model => "model"
  | root => "root"
  | out => "out"
  | maxDepth => "max-depth"
  | strictTuples => "strict-tuples"
  | verbose => "verbose"
  | quiet => "quiet"
  | help => "help"
  | version => "version"

/-- The letter of an option after one dash. -/
def letter? : Opt → Option Char
  | model => some 'm'
  | root => some 'r'
  | out => some 'o'
  | verbose => some 'v'
  | quiet => some 'q'
  | help => some 'h'
  | version => some 'V'
  | maxDepth | strictTuples => none

/-- How an option is shown in a message. -/
def shown : Opt → String
  | model => "--model <MODEL>..."
  | root => "--root <ROOT>"
  | out => "--out <OUT>"
  | maxDepth => "--max-depth <MAX_DEPTH>"
  | o => "--" ++ o.long

/-- Whether an option has a value. -/
def takesValue : Opt → Bool
  | model | root | out | maxDepth => true
  | strictTuples | verbose | quiet | help | version => false

end Opt

/-- What the program can do. -/
inductive Subcommand where
  | generate | check | classes
  deriving DecidableEq, Repr

namespace Subcommand

/-- The name of a subcommand. -/
def name : Subcommand → String
  | generate => "generate"
  | check => "check"
  | classes => "classes"

/-- The subcommand of a name. -/
def ofName? (name : String) : Option Subcommand := [generate, check, classes].find? (·.name == name)

/-- The options after a subcommand. -/
def options : Subcommand → List Opt
  | generate => [.model, .strictTuples, .maxDepth, .root, .out, .verbose, .quiet, .help]
  | check => [.model, .strictTuples, .maxDepth, .verbose, .quiet, .help]
  | classes => [.model, .verbose, .quiet, .help]

end Subcommand

/-- The options before a subcommand. -/
def commonOptions : List Opt := [.verbose, .quiet, .help, .version]

/-! ## Faults -/

/-- Why arguments are no invocation. -/
inductive UsageError where
  | noArguments
  | missingSubcommand
  | missingArguments
  | unexpectedArgument (text : String)
  | unknownSubcommand (text : String)
  | valueRequired (option : Opt)
  | repeated (option : Opt)
  | conflict (first second : Opt)
  | unneededValue (value : String) (option : Opt)
  | invalidCount (value : String) (option : Opt) (reason : CountError)
  deriving DecidableEq, Repr

/-- What the program says that it does. -/
def aboutText : String := "compile annotated data-model classes into JSON Schema (draft-07)"

/-- The words for a fault. A call without arguments is answered by what the program does. What the message repeats of the
arguments is without what a terminal obeys. -/
def UsageError.message : UsageError → String
  | .noArguments => aboutText
  | .missingSubcommand => "error: 'annot-schema' requires a subcommand but one was not provided"
  | .missingArguments => "error: the following required arguments were not provided:"
  | .unexpectedArgument text => s!"error: unexpected argument '{withoutControls text}' found"
  | .unknownSubcommand text => s!"error: unrecognized subcommand '{withoutControls text}'"
  | .valueRequired option => s!"error: a value is required for '{option.shown}' but none was supplied"
  | .repeated option => s!"error: the argument '{option.shown}' cannot be used multiple times"
  | .conflict first second => s!"error: the argument '{first.shown}' cannot be used with '{second.shown}'"
  | .unneededValue value option =>
    s!"error: unexpected value '{withoutControls value}' for '{option.shown}' found; no more were expected"
  | .invalidCount value option reason =>
    s!"error: invalid value '{withoutControls value}' for '{option.shown}': {reason.message}"

/-- What ends the reading of arguments early. -/
inductive Interrupt where
  | usage (e : UsageError)
  | help
  | version
  deriving DecidableEq, Repr

/-- A fault ends the reading. -/
def refuse (e : UsageError) : Except Interrupt α := .error (.usage e)

/-! ## Options read -/

/-- The options read so far, the loudness options in the order given. -/
structure Given where
  models : List String := []
  root : Option String := none
  out : Option String := none
  maxDepth : Option Nat := none
  strictTuples : Bool := false
  loudness : List Opt := []
  deriving DecidableEq, Repr

/-- Adds an option with its values. Only `--model` may be given more than once. -/
def Given.add (g : Given) (option : Opt) (values : List String) : Except Interrupt Given :=
  match option, values with
  | .help, _ => .error .help
  | .version, _ => .error .version
  | .verbose, _ | .quiet, _ =>
    if option ∈ g.loudness then refuse (.repeated option) else .ok { g with loudness := g.loudness ++ [option] }
  | .strictTuples, _ => if g.strictTuples then refuse (.repeated option) else .ok { g with strictTuples := true }
  | _, [] => refuse (.valueRequired option)
  | .model, values => .ok { g with models := g.models ++ values }
  | .root, value :: _ => if g.root.isSome then refuse (.repeated option) else .ok { g with root := some value }
  | .out, value :: _ =>
    if g.out.isSome then refuse (.repeated option)
    else if value = "" then refuse (.valueRequired option)
    else .ok { g with out := some value }
  | .maxDepth, value :: _ =>
    if g.maxDepth.isSome then refuse (.repeated option)
    else match parseCount value with
      | .ok n => .ok { g with maxDepth := some n }
      | .error reason => refuse (.invalidCount value option reason)

/-- A place in the arguments: the options read, the option that waits for values with those it has, and whether all
arguments from here on are positional. -/
structure ArgumentState where
  given : Given := {}
  waiting : Option (Opt × List String) := none
  positionalOnly : Bool := false
  deriving DecidableEq, Repr

namespace ArgumentState

/-- Adds the option that waits for values. -/
def settle (s : ArgumentState) : Except Interrupt ArgumentState :=
  match s.waiting with
  | none => .ok s
  | some (option, values) => (s.given.add option values).map fun g => { s with given := g, waiting := none }

/-- Adds an option with the value in its own argument, or starts to wait for values. -/
def addOption (s : ArgumentState) (option : Opt) (attached : Option String) : Except Interrupt ArgumentState := do
  let s ← s.settle
  match attached with
  | some value => return { s with given := (← s.given.add option [value]) }
  | none =>
    if option.takesValue then return { s with waiting := some (option, []) }
    else return { s with given := (← s.given.add option []) }

/-- Reads an option written in full. -/
def readLong (known : List Opt) (s : ArgumentState) (text : List Char) : Except Interrupt ArgumentState :=
  let name := String.ofList (text.takeWhile (· != '='))
  let attached := match text.dropWhile (· != '=') with
    | [] => none
    | _ :: value => some (String.ofList value)
  match known.find? (·.long == name) with
  | none => refuse (.unexpectedArgument ("--" ++ name))
  | some option =>
    match attached with
    | some value => if option.takesValue then s.addOption option attached else refuse (.unneededValue value option)
    | none => s.addOption option none

/-- Reads options written as letters; a value takes the rest of the argument. -/
def readLetters (known : List Opt) (s : ArgumentState) : List Char → Except Interrupt ArgumentState
  | [] => .ok s
  | c :: cs =>
    match known.find? (·.letter? == some c) with
    | none => refuse (.unexpectedArgument (String.ofList ['-', c]))
    | some option =>
      if option.takesValue then
        match cs with
        | [] => s.addOption option none
        | '=' :: value => s.addOption option (some (String.ofList value))
        | value => s.addOption option (some (String.ofList value))
      else do readLetters known (← s.addOption option none) cs

/-- Reads an argument that is no option: a value of the option that waits for one, or else `stray` says what is wrong. -/
def readPlain (s : ArgumentState) (stray : String → UsageError) (text : String) : Except Interrupt ArgumentState :=
  match s.waiting with
  | some (option, values) =>
    if !s.positionalOnly ∧ (option = .model ∨ values = []) then
      .ok { s with waiting := some (option, values ++ [text]) }
    else refuse (stray text)
  | none => refuse (stray text)

/-- Reads one argument. -/
def read (known : List Opt) (stray : String → UsageError) (s : ArgumentState) (text : String) :
    Except Interrupt ArgumentState :=
  if s.positionalOnly then s.readPlain stray text
  else match text.toList with
    | ['-', '-'] => .ok { s with positionalOnly := true }
    | '-' :: '-' :: name => s.readLong known name
    | '-' :: c :: cs => s.readLetters known (c :: cs)
    | _ => s.readPlain stray text

end ArgumentState

/-- Two options that exclude each other cannot both be given. -/
def Given.checkConflict (g : Given) : Except Interrupt Unit :=
  match g.loudness with
  | first :: second :: _ => refuse (.conflict first second)
  | _ => .ok ()

/-! ## Invocations -/

/-- A subcommand with its options. -/
inductive Command where
  /-- Writes the schema of one class, to a file if one is given. -/
  | generate (models : List String) (options : ExpansionOptions) (root : String) (out : Option String)
  /-- Makes the schema of every class and reports those that fail. -/
  | check (models : List String) (options : ExpansionOptions)
  /-- Lists the classes and the enumerations. -/
  | classes (models : List String)
  deriving DecidableEq, Repr

/-- The model files of a command, as paths or patterns. -/
def Command.models : Command → List String
  | .generate models .. | .check models _ | .classes models => models

/-- What the program is called for. -/
structure Invocation where
  verbose : Bool
  quiet : Bool
  command : Command
  deriving DecidableEq, Repr

/-- The options of an expansion as given. -/
def Given.options (g : Given) : ExpansionOptions :=
  ⟨g.maxDepth.getD ({} : ExpansionOptions).maxDepth, if g.strictTuples then .homogeneous else .firstElement⟩

/-- The command of a subcommand with the options given after it, if those it needs are there. -/
def Given.toCommand (g : Given) (sub : Subcommand) : Except Interrupt Command :=
  if g.models.isEmpty then refuse .missingArguments
  else match sub, g.root with
    | .generate, none => refuse .missingArguments
    | .generate, some root => .ok (.generate g.models g.options root g.out)
    | .check, _ => .ok (.check g.models g.options)
    | .classes, _ => .ok (.classes g.models)

/-- Reads the arguments after a subcommand. -/
def readSubcommand (sub : Subcommand) (args : List String) : Except Interrupt (Given × Command) := do
  let s ← args.foldlM (ArgumentState.read sub.options .unexpectedArgument) {}
  let g := (← s.settle).given
  g.checkConflict
  return (g, ← g.toCommand sub)

/-- What is wrong with a positional argument before the subcommand. -/
def strayArgument (positionalOnly : Bool) (text : String) : UsageError :=
  if positionalOnly ∧ (text = "help" ∨ (Subcommand.ofName? text).isSome) then .unexpectedArgument text
  else .unknownSubcommand text

/-- Reads the arguments after `help`: they may name one subcommand. -/
def readHelp : List String → Interrupt
  | [] => .help
  | name :: others =>
    if name = "help" ∨ (Subcommand.ofName? name).isSome then
      match others with
      | [] => .help
      | other :: _ => .usage (.unknownSubcommand other)
    else .usage (.unknownSubcommand name)

/-- Reads the arguments from a place before the subcommand on. -/
def readArguments (s : ArgumentState) : List String → Except Interrupt Invocation
  | [] => refuse (if s.given.loudness.isEmpty then .noArguments else .missingSubcommand)
  | text :: args =>
    if !s.positionalOnly ∧ text = "help" then .error (readHelp args)
    else match if s.positionalOnly then none else Subcommand.ofName? text with
      | some sub => do
        let (g, command) ← readSubcommand sub args
        s.given.checkConflict
        let loudness := s.given.loudness ++ g.loudness
        return ⟨.verbose ∈ loudness, .quiet ∈ loudness, command⟩
      | none => do readArguments (← s.read commonOptions (strayArgument s.positionalOnly) text) args

/-- The invocation that arguments write. -/
def Invocation.ofArguments (args : List String) : Except Interrupt Invocation := readArguments {} args

end ClassSchema

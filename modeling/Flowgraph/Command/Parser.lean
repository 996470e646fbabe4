import Flowgraph.Text.Slice

/-!
# Command lines

The commands of the program and how they are read from the arguments. Arguments are taken one after
another: the first that is wrong, or that asks for help or the version, decides.
-/

namespace Flowgraph

inductive Command where
  | extract (file : String)
  | diff (old new : String)
  | watch (root : String) (config : Option String)
deriving DecidableEq, Repr

namespace Command

/-- Why no command is run. -/
inductive Stop where
  /-- The arguments are wrong. -/
  | usage (problem : String)
  | help
  | version
deriving DecidableEq, Repr

/-! ## Subcommands -/

/-- What a subcommand takes. -/
structure Shape where
  name : String
  /-- The number of positional arguments that must be given. -/
  required : Nat
  /-- The number of positional arguments that may be given. -/
  allowed : Nat
  /-- The long name of the option that takes a value. -/
  option : Option String
deriving DecidableEq, Repr

def extractShape : Shape := ⟨"extract", 1, 1, some "root"⟩

def diffShape : Shape := ⟨"diff", 2, 2, none⟩

def watchShape : Shape := ⟨"watch", 0, 1, some "config"⟩

def shapes : List Shape := [extractShape, diffShape, watchShape]

/-- The arguments of a subcommand. -/
structure Given where
  verbose : Bool
  positionals : List String
  value : Option String
deriving DecidableEq, Repr

namespace Given

def none : Given := ⟨false, [], Option.none⟩

/-- Sets the flag for verbose output, which may be given once. -/
def setVerbose (g : Given) : Except Stop Given :=
  if g.verbose then .error (.usage "--verbose is given twice") else .ok { g with verbose := true }

/-- Sets the value of the option, which may be given once and not be empty. -/
def setValue (g : Given) (value : String) : Except Stop Given :=
  if value.isEmpty then .error (.usage "an option has an empty value")
  else if g.value.isSome then .error (.usage "an option is given twice")
  else .ok { g with value := some value }

/-- Adds a positional argument, which may not be empty. -/
def addPositional (shape : Shape) (g : Given) (arg : String) : Except Stop Given :=
  if arg.isEmpty then .error (.usage "an argument is empty")
  else if g.positionals.length < shape.allowed then
    .ok { g with positionals := g.positionals ++ [arg] }
  else .error (.usage ("unexpected argument " ++ arg))

/-- Reads a group of flags of one letter. -/
def setFlags (g : Given) : List Char → Except Stop Given
  | [] => .ok g
  | c :: cs =>
    if c == 'h' then .error .help
    else if c == 'v' then
      match g.setVerbose with
      | .ok g => setFlags g cs
      | .error e => .error e
    else .error (.usage ("unknown flag " ++ String.singleton c))

end Given

/-- Whether an argument is a flag or an option. A dash alone is neither. -/
def isFlag (arg : String) : Bool :=
  match arg.toList with
  | '-' :: _ :: _ => true
  | _ => false

/-- The name and the value of a long option behind its dashes. -/
def splitOption (s : List Char) : String × Option String :=
  match Text.splitOnce ['='] s with
  | some (name, value) => (String.ofList name, some (String.ofList value))
  | none => (String.ofList s, none)

/-- What an argument of a subcommand is. -/
inductive Argument where
  /-- Two dashes, behind which all arguments are positional. -/
  | separator
  | long (name : String) (value : Option String)
  | flags (letters : List Char)
  | positional (arg : String)
deriving DecidableEq, Repr

def Argument.of (arg : String) : Argument :=
  match arg.toList with
  | ['-', '-'] => .separator
  | '-' :: '-' :: option =>
    let (name, value) := splitOption option
    .long name value
  | '-' :: c :: letters => .flags (c :: letters)
  | _ => .positional arg

/-- Reads the arguments of a subcommand. While `pending`, the option waits for its value. -/
def readArguments (shape : Shape) (pending : Bool) (g : Given) : List String → Except Stop Given
  | [] => if pending then .error (.usage "an option has no value") else .ok g
  | arg :: rest =>
    if pending then
      if isFlag arg then .error (.usage "an option has no value")
      else
        match g.setValue arg with
        | .ok g => readArguments shape false g rest
        | .error e => .error e
    else
      match Argument.of arg with
      | .separator => rest.foldlM (Given.addPositional shape) g
      | .flags letters =>
        match g.setFlags letters with
        | .ok g => readArguments shape false g rest
        | .error e => .error e
      | .positional arg =>
        match Given.addPositional shape g arg with
        | .ok g => readArguments shape false g rest
        | .error e => .error e
      | .long name value =>
        if shape.option = some name then
          match value with
          | none => readArguments shape true g rest
          | some value =>
            match g.setValue value with
            | .ok g => readArguments shape false g rest
            | .error e => .error e
        else if name = "verbose" ∧ value = none then
          match g.setVerbose with
          | .ok g => readArguments shape false g rest
          | .error e => .error e
        else if name = "help" ∧ value = none then .error .help
        else .error (.usage ("unknown option " ++ arg))

/-- The command of a subcommand with its arguments. -/
def ofGiven (shape : Shape) (g : Given) : Except Stop Command :=
  match shape.name, g.positionals with
  | "extract", [file] => .ok (.extract file)
  | "diff", [old, new] => .ok (.diff old new)
  | "watch", [] => .ok (.watch "." g.value)
  | "watch", [root] => .ok (.watch root g.value)
  | _, _ => .error (.usage "an argument is missing")

/-- Reads the command behind `help`, which may name a subcommand. -/
def readHelp : List String → Stop
  | [] => .help
  | [name] =>
    if name = "help" ∨ shapes.any (·.name == name) then .help
    else .usage ("unknown command " ++ name)
  | _ => .usage "help takes one command"

/-- Reads the flags in front of the subcommand, given whether that for verbose output is set. -/
def setGlobalFlags (verbose : Bool) : List Char → Except Stop Bool
  | [] => .ok verbose
  | c :: cs =>
    if c == 'h' then .error .help
    else if c == 'V' then .error .version
    else if c == 'v' && !verbose then setGlobalFlags true cs
    else .error (.usage ("unexpected flag " ++ String.singleton c))

/-- Reads the command of the arguments, given whether the flag for verbose output is set. -/
def read (verbose : Bool) : List String → Except Stop Command
  | [] => .error (.usage "a command is missing")
  | arg :: rest =>
    match Argument.of arg with
    | .separator => .error (.usage "a command is missing")
    | .flags letters =>
      match setGlobalFlags verbose letters with
      | .ok verbose => read verbose rest
      | .error e => .error e
    | .long name value =>
      if name = "verbose" ∧ value = none ∧ !verbose then read true rest
      else if name = "help" ∧ value = none then .error .help
      else if name = "version" ∧ value = none then .error .version
      else .error (.usage ("unexpected option " ++ arg))
    | .positional name =>
      if name = "help" then .error (readHelp rest)
      else
        match shapes.find? (·.name == name) with
        | none => .error (.usage ("unknown command " ++ name))
        | some shape => readArguments shape false .none rest >>= ofGiven shape

/-- The command that arguments ask for. -/
def parse (args : List String) : Except Stop Command := read false args

end Command

end Flowgraph

import Flowgraph.Command.Parser
import Flowgraph.Config
import Flowgraph.Graph.Json
import Flowgraph.Json.Printer
import Flowgraph.Syntax.Parsers

/-!
# Running commands

What a command prints, given the files it sees.
-/

namespace Flowgraph

/-- What a run of the program leaves behind. -/
structure Outcome where
  code : Nat
  stdout : String
  stderr : String
deriving DecidableEq, Repr

namespace Outcome

/-- A run that prints its result. -/
def success (text : String) : Outcome := ⟨0, text ++ "\n", ""⟩

/-- A run that fails for a reason, with its cause. -/
def failure (reason cause : String) : Outcome :=
  ⟨1, "", "Error: " ++ reason ++ "\n\nCaused by:\n    " ++ cause ++ "\n"⟩

end Outcome

/-- What a command sees of the files. -/
structure FileView where
  read : String → Except IoError String
  /-- What stands at a path. -/
  find : String → Except IoError FileTree

/-- The view of the files of a tree by paths taken from its root. -/
def FileTree.view (tree : FileTree) : FileView := ⟨tree.read, tree.get⟩

namespace Command

def versionText : String := "flowlens 0.1.0"

def helpText : String :=
  "Incremental call graphs for LLM pipelines\n\nUsage: flowlens [OPTIONS] <COMMAND>\n\nCommands:\n" ++
    "  extract  Print the call graph of a source file\n" ++
    "  diff     Print the structural diff between two revisions of a file\n" ++
    "  watch    Watch a workspace and print engine events as JSON lines\n" ++
    "  help     Print this message or the help of the given subcommand(s)\n\nOptions:\n" ++
    "  -v, --verbose  Log at debug level\n  -h, --help     Print help\n" ++
    "  -V, --version  Print version"

/-! ## Call graphs of files -/

/-- The text of a file, or the failure of the run. -/
def readFile (files : FileView) (path : String) : Except Outcome String :=
  (files.read path).mapError fun e => .failure ("Failed to read " ++ path) e.message

/-- The call graph of the file at a path, read as source text of a language. -/
def readCalls (files : FileView) (path : String) (language : Language) : Except Outcome CallGraph := do
  let text ← readFile files path
  (tryExtract text language).mapError fun e => .failure ("Cannot extract " ++ path) e.message

def extractFile (files : FileView) (path : String) : Except Outcome Json :=
  (readCalls files path (Language.ofPath path)).map CallGraph.toJson

/-- The difference of two files, both in the language of the new one. -/
def diffFiles (files : FileView) (old new : String) : Except Outcome Json := do
  let before ← readCalls files old (Language.ofPath new)
  let after ← readCalls files new (Language.ofPath new)
  return (before.diff after).toJson

/-! ## Workspaces -/

/-- A workspace that is to be watched. -/
structure Workspace where
  tree : FileTree
  config : Config

/-- The workspace at a path with its configuration. -/
def openWorkspace (files : FileView) (root : String) (config : Option String) :
    Except Outcome Workspace := do
  let tree ← (files.find root).mapError fun e =>
    .failure ("Workspace root " ++ root ++ " not found") e.message
  match config with
  | some path =>
    let loaded := match files.read path with
      | .ok text => Config.ofText text
      | .error e => .error (.io e)
    let config ← loaded.mapError fun e => .failure ("Failed to load config " ++ path) e.message
    return ⟨tree, config⟩
  | none =>
    let config ← (Config.discover tree).mapError fun e => ⟨1, "", "Error: " ++ e.message ++ "\n"⟩
    return ⟨tree, config⟩

/-! ## Runs -/

/-- The end of a run, or the workspace that goes on to be watched. -/
inductive Result where
  | finished (outcome : Outcome)
  | watching (workspace : Workspace)

/-- The outcome of printing a value. -/
def printed : Except Outcome Json → Outcome
  | .ok j => .success j.pretty
  | .error outcome => outcome

def run (files : FileView) : Command → Result
  | .extract file => .finished (printed (extractFile files file))
  | .diff old new => .finished (printed (diffFiles files old new))
  | .watch root config =>
    match openWorkspace files root config with
    | .ok workspace => .watching workspace
    | .error outcome => .finished outcome

/-- The outcome of arguments that ask for no command. -/
def Stop.outcome : Stop → Outcome
  | .usage problem => ⟨2, "", "error: " ++ problem ++ "\n\nFor more information, try '--help'.\n"⟩
  | .help => .success helpText
  | .version => .success versionText

/-- Runs the command that the arguments ask for. -/
def runArguments (files : FileView) (args : List String) : Result :=
  match parse args with
  | .ok command => run files command
  | .error stop => .finished stop.outcome

end Command

end Flowgraph

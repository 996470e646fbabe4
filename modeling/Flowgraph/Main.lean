import Flowgraph.Command.Run

/-!
# The program

Reads the files that a command names, and prints its outcome.
-/

namespace Flowgraph.Command

/-- The paths that a command reads. -/
def paths : Command → List String
  | .extract file => [file]
  | .diff old new => [old, new]
  | .watch root config => [root, Path.resolveIn root Config.fileName] ++ config.toList

/-- The paths that arguments lead to. -/
def pathsOf (args : List String) : List String :=
  match parse args with
  | .ok command => command.paths
  | .error _ => []

/-- The files that have been read. -/
abbrev ReadFiles := List (String × Except IoError String)

def ReadFiles.read (files : ReadFiles) (path : String) : Except IoError String :=
  match files.find? fun f => f.1 == path with
  | some f => f.2
  | none => .error .notFound

/-- What stands at a path: a file, or a directory of which only the configuration is known. -/
def ReadFiles.find (files : ReadFiles) (path : String) : Except IoError FileTree :=
  match ReadFiles.read files path with
  | .ok text => .ok (.file text)
  | .error .isADirectory =>
    match ReadFiles.read files (Path.resolveIn path Config.fileName) with
    | .ok text => .ok (.directory [(Config.fileName, .file text)])
    | .error _ => .ok .empty
  | .error e => .error e

/-! ## Input and output -/

/-- Reads a file, or tells why it cannot be read. -/
def readPath (path : String) : IO (Except IoError String) := do
  try
    return .ok (← IO.FS.readFile path)
  catch
    | .inappropriateType _ code _ =>
      return .error (if code = 21 then .isADirectory else .notADirectory)
    | _ => return .error .notFound

def report (outcome : Outcome) : IO UInt32 := do
  IO.print outcome.stdout
  IO.eprint outcome.stderr
  return UInt32.ofNat outcome.code

end Flowgraph.Command

open Flowgraph in
def main (args : List String) : IO UInt32 := do
  let files ← (Command.pathsOf args).mapM fun path => return (path, ← Command.readPath path)
  match Command.runArguments ⟨Command.ReadFiles.read files, Command.ReadFiles.find files⟩ args with
  | .finished outcome => Command.report outcome
  | .watching _ =>
    IO.eprintln "Error: changes of files cannot be watched here"
    return 1

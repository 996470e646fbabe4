import Flowgraph.Analysis
import Flowgraph.FileTree

/-!
# Sources of file contents

Where the engine reads the current text of a file: from a map of unsaved texts, or from a directory.
A directory is read only by paths that cannot lead out of it.
-/

namespace Flowgraph

inductive SourceError where
  /-- No text is kept for the path. -/
  | unknownFile (path : String)
  | io (cause : IoError)
  /-- The path may lead out of the directory. -/
  | invalidPath (path : String)
deriving DecidableEq, Repr

namespace SourceError

def message : SourceError → String
  | .unknownFile path => "IO error: " ++ path ++ " not found"
  | .io cause => "IO error: " ++ cause.message
  | .invalidPath path => "Invalid path: " ++ path

end SourceError

/-- Reads the text kept for a path. -/
def Contents.read (files : Contents) (path : String) : Except SourceError String :=
  match files[path]? with
  | some text => .ok text
  | none => .error (.unknownFile path)

/-- Reads a file below the root of a tree. -/
def FileTree.readContained (tree : FileTree) (path : String) : Except SourceError String :=
  if Path.isContained path then (tree.read path).mapError .io else .error (.invalidPath path)

end Flowgraph

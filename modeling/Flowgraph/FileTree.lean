import Flowgraph.Path

/-!
# File trees

A directory with everything below it, and reading files by path.
-/

namespace Flowgraph

/-- A file with its text, or a directory with its entries by name. -/
inductive FileTree where
  | file (text : String)
  | directory (entries : List (String × FileTree))

/-- Why a path cannot be read. -/
inductive IoError where
  | notFound
  | notADirectory
  | isADirectory
deriving DecidableEq, Repr

def IoError.message : IoError → String
  | .notFound => "No such file or directory (os error 2)"
  | .notADirectory => "Not a directory (os error 20)"
  | .isADirectory => "Is a directory (os error 21)"

namespace FileTree

def empty : FileTree := .directory []

/-! ## Building -/

/-- The entry of a name. -/
def lookup? (name : String) : List (String × FileTree) → Option FileTree
  | [] => none
  | (n, t) :: rest => if n = name then some t else lookup? name rest

/-- The entries with that of one name replaced, or added at the end. -/
def replace (name : String) (tree : FileTree) : List (String × FileTree) → List (String × FileTree)
  | [] => [(name, tree)]
  | (n, t) :: rest => if n = name then (n, tree) :: rest else (n, t) :: replace name tree rest

def entries : FileTree → List (String × FileTree)
  | .file _ => []
  | .directory es => es

/-- Puts an item at a path, with the directories that lead to it. An empty directory put where there is
one already changes nothing. -/
def insert : FileTree → List String → FileTree → FileTree
  | .directory es, [], .directory [] => .directory es
  | _, [], item => item
  | tree, name :: names, item =>
    let child := (lookup? name tree.entries).getD empty
    .directory (replace name (child.insert names item) tree.entries)

/-- The tree of the given files. A path that ends in a slash is a directory. -/
def ofFiles (files : List (String × String)) : FileTree :=
  files.foldl
    (fun tree f =>
      let names := (Path.components f.1).filterMap Path.Component.name?
      tree.insert names (if f.1.toList.getLast? == some '/' then empty else .file f.2))
    empty

/-! ## Reading -/

/-- What stands at a path below `here`, whose parents are given from the nearest one on. Nothing is
above the root. -/
def walk : List FileTree → FileTree → List (List Char) → Except IoError FileTree
  | _, here, [] => .ok here
  | _, .file _, _ :: _ => .error .notADirectory
  | parents, .directory es, piece :: pieces =>
    if piece.isEmpty || piece == ['.'] then walk parents (.directory es) pieces
    else if piece == ['.', '.'] then
      match parents with
      | [] => .error .notFound
      | parent :: above => walk above parent pieces
    else
      match lookup? (String.ofList piece) es with
      | none => .error .notFound
      | some child => walk (.directory es :: parents) child pieces

/-- What stands at a path taken from the root of the tree. -/
def get (tree : FileTree) (path : String) : Except IoError FileTree :=
  if Path.isAbsolute path then .error .notFound else walk [] tree (Text.splitOn '/' path.toList)

def contains (tree : FileTree) (path : String) : Bool :=
  match tree.get path with
  | .ok _ => true
  | .error _ => false

def containsFile (tree : FileTree) (path : String) : Bool :=
  match tree.get path with
  | .ok (.file _) => true
  | _ => false

/-- The text of the file at a path. -/
def read (tree : FileTree) (path : String) : Except IoError String :=
  match tree.get path with
  | .ok (.file text) => .ok text
  | .ok (.directory _) => .error .isADirectory
  | .error e => .error e

end FileTree

end Flowgraph

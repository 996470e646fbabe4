import Flowgraph.FileTree
import Flowgraph.Ignore.Basic
import Flowgraph.Language
import Std.Data.ExtTreeSet

/-!
# Source files of a tree

Finding the source files below a directory. Hidden entries, directories of given names and what the ignore
files say are left out. The rules of version control count only inside a repository.
-/

namespace Flowgraph.SourceFiles

/-! ## Rules of a directory -/

/-- The rules that the files of a directory give. -/
structure Rules where
  /-- From `.ignore`. -/
  general : List Ignore.Rule
  /-- From `.gitignore`. -/
  versioned : List Ignore.Rule
  /-- From the repository itself. -/
  excluded : List Ignore.Rule
  /-- Whether the directory is the top of a repository. -/
  isRepository : Bool

/-- The rules in a file of a directory, if it has that file. -/
def rulesIn (entries : List (String × FileTree)) (name : String) : List Ignore.Rule :=
  match FileTree.lookup? name entries with
  | some (.file text) => Ignore.rulesOf text
  | _ => []

def Rules.of (entries : List (String × FileTree)) : Rules where
  general := rulesIn entries ".ignore"
  versioned := rulesIn entries ".gitignore"
  excluded :=
    match FileTree.lookup? ".git" entries with
    | some (.directory git) =>
      match FileTree.lookup? "info" git with
      | some (.directory info) => rulesIn info "exclude"
      | _ => []
    | _ => []
  isRepository := (FileTree.lookup? ".git" entries).isSome

/-- The rules of a directory on the way to an entry, with the names from there to the entry. -/
structure Layer where
  rules : Rules
  names : List String

/-- The layer seen from an entry one level below. -/
def Layer.extend (name : String) (l : Layer) : Layer := { l with names := l.names ++ [name] }

/-- The layers up to the innermost top of a repository. -/
def withinRepository : List Layer → List Layer
  | [] => []
  | l :: ls => if l.rules.isRepository then [l] else l :: withinRepository ls

/-- What the layers, from the innermost on, say on an entry. -/
def verdict? (layers : List Layer) (isDirectory : Bool) : Option Bool :=
  let ask (rules : Rules → List Ignore.Rule) (layers : List Layer) : Option Bool :=
    layers.findSome? fun l => Ignore.verdict? (rules l.rules) l.names isDirectory
  let general := ask (·.general) layers
  if layers.any (·.rules.isRepository) then
    let inside := withinRepository layers
    general.or ((ask (·.versioned) inside).or (ask (·.excluded) inside))
  else general

/-! ## Scanning -/

def isHidden (name : String) : Bool := name.toList.head? == some '.'

/-- Whether an entry is left out. A rule that keeps an entry keeps it even if it is hidden. -/
def isLeftOut (ignoredDirs : List String) (layers : List Layer) (name : String) (isDirectory : Bool) :
    Bool :=
  (verdict? layers isDirectory).getD (isHidden name) || (isDirectory && ignoredDirs.contains name)

mutual

/-- The source files at or below an entry with the given names from the top. -/
def inTree (ignoredDirs : List String) (layers : List Layer) (names : List String) :
    FileTree → List String
  | .file _ =>
    let path := Path.ofNames names
    if (Language.ofPath path).isSupported then [path] else []
  | .directory entries =>
    inEntries ignoredDirs (⟨Rules.of entries, []⟩ :: layers) names entries

/-- The source files among the entries of a directory. -/
def inEntries (ignoredDirs : List String) (layers : List Layer) (names : List String) :
    List (String × FileTree) → List String
  | [] => []
  | (name, tree) :: rest =>
    let inner := layers.map (Layer.extend name)
    let isDirectory := match tree with
      | .directory _ => true
      | .file _ => false
    (if isLeftOut ignoredDirs inner name isDirectory then []
      else inTree ignoredDirs inner (names ++ [name]) tree) ++
      inEntries ignoredDirs layers names rest

end

/-- The source files of a tree in order. -/
def find (ignoredDirs : List String) (tree : FileTree) : List String :=
  (Std.ExtTreeSet.ofList (inTree ignoredDirs [] [] tree) compare).toList

end Flowgraph.SourceFiles

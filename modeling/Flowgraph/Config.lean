import Flowgraph.Engine.Basic
import Flowgraph.FileTree
import Flowgraph.Toml.Parser

/-!
# Configuration

The settings of the engine, and the TOML file at the root of a workspace that may change them. What the
file does not mention keeps its default, and what it mentions besides does not count.
-/

namespace Flowgraph

structure Config where
  timing : Timing
  /-- The names of directories that are neither scanned nor watched. -/
  ignoredDirs : List String
  /-- Where analyses are cached, relative to the root of the workspace. -/
  cacheDir : String
deriving DecidableEq, Repr

/-- Why a configuration cannot be used. -/
inductive ConfigError where
  | io (cause : IoError)
  | malformed (position : Toml.Position)
deriving DecidableEq, Repr

def ConfigError.message : ConfigError → String
  | .io cause => "IO error: " ++ cause.message
  | .malformed p =>
    "Config error: TOML parse error at line " ++ toString p.line ++ ", column " ++ toString p.column

namespace Config

def fileName : String := "flowlens.toml"

def default : Config where
  timing := ⟨1000, 250, 3000, 2000⟩
  ignoredDirs :=
    [".git", "node_modules", "target", "dist", "build", "__pycache__", ".venv", ".flowlens"]
  cacheDir := ".flowlens/cache"

instance : Inhabited Config := ⟨default⟩

/-- The path of the cache in a workspace. -/
def cachePath (c : Config) (root : String) : String := Path.resolveIn root c.cacheDir

/-! ## Reading values -/

/-- The place of an item. -/
def placeOf : Toml.Item → Nat
  | .scalar place _ | .array place _ | .inline place _ | .table place _ _ => place
  | .tables latest earlier => ((latest :: earlier).getLast?.map placeOfTable).getD 0
where
  placeOfTable : Toml.Item → Nat
    | .scalar place _ | .array place _ | .inline place _ | .table place _ _ => place
    | .tables _ _ => 0

/-- A natural number. -/
def asNat : Toml.Item → Except Nat Nat
  | .scalar place (.integer n) => if 0 ≤ n then .ok n.toNat else .error place
  | item => .error (placeOf item)

def asText : Toml.Item → Except Nat String
  | .scalar _ (.text s) => .ok s
  | item => .error (placeOf item)

def asTexts : Toml.Item → Except Nat (List String)
  | .array _ items => items.mapM asText
  | item => .error (placeOf item)

/-! ## Reading a file -/

/-- Takes over an entry of the file. -/
def setEntry (c : Config) (entry : String × Toml.Item) : Except Nat Config :=
  let time (set : Nat → Timing) : Except Nat Config :=
    (asNat entry.2).map fun n => { c with timing := set n }
  match entry.1 with
  | "modify_debounce_ms" => time fun n => { c.timing with modifyDebounce := n }
  | "create_debounce_ms" => time fun n => { c.timing with createDebounce := n }
  | "editing_inactivity_ms" => time fun n => { c.timing with editingInactivity := n }
  | "classification_window_ms" => time fun n => { c.timing with classificationWindow := n }
  | "ignored_dirs" => (asTexts entry.2).map fun names => { c with ignoredDirs := names }
  | "cache_dir" => (asText entry.2).map fun path => { c with cacheDir := path }
  | _ => .ok c

/-- The configuration in the text of a file. -/
def ofText (text : String) : Except ConfigError Config :=
  (Toml.parse text.toList >>= fun entries => entries.foldlM setEntry default).mapError fun place =>
    .malformed (Toml.Position.ofPlace text.toList place)

/-- The configuration in the file at a path. -/
def load (tree : FileTree) (path : String) : Except ConfigError Config :=
  match tree.read path with
  | .ok text => ofText text
  | .error e => .error (.io e)

/-- The configuration of a workspace: that of its file if it has one, and else the default. -/
def discover (tree : FileTree) : Except ConfigError Config :=
  if tree.containsFile fileName then load tree fileName else .ok default

end Config

end Flowgraph

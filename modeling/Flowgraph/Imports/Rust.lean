import Flowgraph.Imports.UseTree

/-!
# Imports and exports of Rust

The bindings of `use` and `mod` declarations, and the public functions of a file.
-/

namespace Flowgraph.Imports.Rust

open Pattern

def usePattern : Pattern :=
  all [.lineStart, gap, optionalVisibility, text "use", gap1, .capture 1 (many1 (noneOf ";")),
    text ";"]

def modulePattern : Pattern :=
  all [.lineStart, gap, optionalVisibility, text "mod", gap1, .capture 1 plainName, gap, text ";"]

/-- The specifier of a path. A leading `crate` is dropped, `self` and one `super` stand for the
directory of the file, and every further `super` for the directory above. -/
def specifier (path : List String) : String :=
  match path with
  | "crate" :: rest => "/".intercalate rest
  | "self" :: rest => "./" ++ "/".intercalate rest
  | "super" :: rest =>
    let ups := (rest.takeWhile (· == "super")).length
    let lead := if ups == 0 then "./" else String.join (List.replicate ups "../")
    lead ++ "/".intercalate (rest.drop ups)
  | _ => "/".intercalate path

def useBindings (tree : List Char) : Except ImportError (List ImportBinding) :=
  (UseTree.expand tree).map fun leaves => leaves.map fun l => ⟨l.name, [specifier l.path]⟩

/-- The bindings of use declarations one after another, up to the first failure. -/
def allUseBindings : List (List Char) → Except ImportError (List ImportBinding)
  | [] => .ok []
  | tree :: trees =>
    match useBindings tree with
    | .error e => .error e
    | .ok bs =>
      match allUseBindings trees with
      | .error e => .error e
      | .ok more => .ok (bs ++ more)

def moduleBinding (name : List Char) : ImportBinding := binding name [['.', '/'] ++ name]

/-- The bindings of a text: those of `use` before those of `mod` declarations. -/
def bindings (source : List Char) : Except ImportError (List ImportBinding) :=
  (allUseBindings ((usePattern.findAll source).map (·.group 1))).map fun bs =>
    bs ++ (modulePattern.findAll source).map fun m => moduleBinding (m.group 1)

/-! ## Exports -/

def publicFunction : Pattern :=
  all [.lineStart, gap, text "pub", optional (all [text "(", many (noneOf ")"), text ")"]), gap1,
    optionalWord "const", optionalWord "async", optionalWord "unsafe",
    optional (all [text "extern", gap1, text "\"", many (noneOf "\""), text "\"", gap1]), text "fn",
    gap1, .capture 1 plainName]

/-- The public functions, or nothing where there is none. -/
def exportedNames? (source : List Char) : Option (List String) :=
  match publicFunction.findAll source with
  | [] => none
  | ms => some (ms.map fun m => String.ofList (m.group 1))

end Flowgraph.Imports.Rust

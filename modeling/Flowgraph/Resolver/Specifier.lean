import Flowgraph.Text.Slice

/-!
# Specifiers

What a module specifier means next to a file: the path a relative one is joined to, the files that are
tried for it, and the module path of a file.
-/

namespace Flowgraph.Resolver

/-- Whether a specifier is taken from the directory of the file that imports it. -/
def isRelative (specifier : List Char) : Bool :=
  specifier == ['.'] || specifier == ['.', '.'] || (Text.dropLead? ['.', '/'] specifier).isSome ||
    (Text.dropLead? ['.', '.', '/'] specifier).isSome

/-- The directory of a file. -/
def directory (path : List Char) : List Char :=
  match Text.splitOnceLast '/' path with
  | some (dir, _) => dir
  | none => []

/-- Follows the parts of a specifier from the parts of a directory, which are in reverse. -/
def followParts : List (List Char) → List (List Char) → Option (List (List Char))
  | reached, [] => some reached
  | reached, part :: parts =>
    if part.isEmpty || part == ['.'] then followParts reached parts
    else if part == ['.', '.'] then
      match reached with
      | [] => none
      | _ :: above => followParts above parts
    else followParts (part :: reached) parts

/-- The path that a relative specifier leads to from a directory, unless it leads out of the
workspace. -/
def joinRelative (dir specifier : List Char) : Option (List Char) :=
  (followParts ((Text.splitOn '/' dir).filter (!·.isEmpty)).reverse (Text.splitOn '/' specifier)).map
    fun parts => Text.join ['/'] parts.reverse

/-- What is appended to a specifier, in order, to find the file it stands for. -/
def completions : List (List Char) :=
  ["", ".ts", ".tsx", ".js", ".jsx", ".mjs", ".py", ".rs", "/index.ts", "/index.tsx", "/index.js",
    "/__init__.py", "/mod.rs"].map String.toList

/-- The extensions that a specifier may carry in place of the one of its file. -/
def replaceableExtensions : List (List Char) :=
  [".js", ".jsx", ".mjs", ".ts", ".tsx", ".py"].map String.toList

/-- The files tried for a specifier, in order: it with each completion, and then likewise without its
extension. -/
def candidates (specifier : List Char) : List (List Char) :=
  let stems :=
    specifier :: (replaceableExtensions.findSome? fun ext => Text.dropTail? ext specifier).toList
  stems.flatMap fun stem => completions.map fun completion => stem ++ completion

/-- The module path of a file: its path without the extension, and without the name of a file that
stands for its directory. -/
def modulePath (file : List Char) : List Char :=
  let stem :=
    match Text.splitOnceLast '.' file with
    | some (stem, ext) => if ext.contains '/' then file else stem
    | none => file
  (["/__init__", "/index", "/mod"].findSome? fun name => Text.dropTail? name.toList stem).getD stem

/-- The last part of a path. -/
def lastPart (path : List Char) : List Char :=
  match Text.splitOnceLast '/' path with
  | some (_, last) => last
  | none => path

/-- Whether a module path is the given one or ends in it. -/
def endsInModule (module specifier : List Char) : Bool :=
  module == specifier || (Text.dropTail? ('/' :: specifier) module).isSome

end Flowgraph.Resolver

import Flowgraph.Text.Slice

/-!
# Paths

A path as the sequence of its components. Repeated slashes, inner `.` components and a trailing slash
do not count; `.` is a component only at the start of a relative path.

Paths are Unicode texts. Names that are other bytes, for which a relative path would have replacement
characters, are left out.
-/

namespace Flowgraph

/-- One step of a path. -/
inductive Path.Component where
  | root
  | current
  | parent
  | name (text : String)
deriving DecidableEq, Repr

namespace Path

/-- The text of a component that is a name. -/
def Component.name? : Component → Option String
  | .name text => some text
  | _ => none

/-- The component as it is written. -/
def Component.text : Component → String
  | .root => "/"
  | .current => "."
  | .parent => ".."
  | .name text => text

/-- The component a piece between slashes stands for after the first component. -/
def Component.ofPiece? (piece : List Char) : Option Component :=
  if piece.isEmpty || piece == ['.'] then none
  else if piece == ['.', '.'] then some .parent
  else some (.name (String.ofList piece))

/-- The components of a path. -/
def components (path : String) : List Component :=
  match path.toList with
  | [] => []
  | '/' :: rest => .root :: (Text.splitOn '/' rest).filterMap Component.ofPiece?
  | s =>
    let pieces := Text.splitOn '/' s
    let rest := pieces.filterMap Component.ofPiece?
    if pieces.head? == some ['.'] then .current :: rest else rest

/-- Whether the path starts at the root. -/
def isAbsolute (path : String) : Bool := path.toList.head? == some '/'

/-- The last component, if it is a name. -/
def fileName? (path : String) : Option String := (components path).getLast?.bind Component.name?

/-- What follows the last dot of the file name. A name without a dot, or whose only dot comes first,
has no extension. -/
def extension? (path : String) : Option String :=
  match fileName? path with
  | none => none
  | some name =>
    match Text.splitOnceLast '.' name.toList with
    | some (_ :: _, ext) => some (String.ofList ext)
    | _ => none

/-! ## Relative paths -/

/-- The names, with a slash between each two. -/
def ofNames (names : List String) : String :=
  String.ofList (Text.join ['/'] (names.map String.toList))

/-- The components of `path` behind those of `root`. -/
def dropRoot? : List Component → List Component → Option (List Component)
  | [], path => some path
  | _ :: _, [] => none
  | r :: root, c :: path => if r = c then dropRoot? root path else none

/-- The components of `path` behind those of `root`, if it starts with them. -/
def behind? (root path : String) : Option (List Component) :=
  dropRoot? (components root) (components path)

/-- The path from `root` to `path`, if it has a name: the names behind those of the root. -/
def relative? (root path : String) : Option String :=
  match behind? root path with
  | none => none
  | some rest =>
    let names := rest.filterMap Component.name?
    if names.isEmpty then none else some (ofNames names)

/-- Whether every component is a name, or the `.` at the start: the path cannot lead out of the
directory it is taken from. -/
def isContained (path : String) : Bool :=
  (components path).all fun c => c.name?.isSome || c == .current

/-- A path taken from the directory `base`. An absolute path stands for itself. -/
def resolveIn (base path : String) : String :=
  if isAbsolute path then path else base ++ "/" ++ path

end Path

end Flowgraph

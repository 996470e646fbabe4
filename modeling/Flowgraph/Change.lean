import Flowgraph.Language

/-!
# Changes of files

The changes that the engine is told of, and the events of a file system that they are taken from.
-/

namespace Flowgraph

inductive ChangeKind where
  | create
  | modify
  | delete
deriving DecidableEq, Repr

/-- A change of a file, whose path is relative to the root of the workspace. -/
structure Change where
  path : String
  kind : ChangeKind
deriving DecidableEq, Repr

/-! ## File system events -/

/-- The side of a rename that an event names. -/
inductive RenameSide where
  | source
  | target
  /-- Both paths, the old one first. -/
  | both
  | unknown
deriving DecidableEq, Repr

inductive FileEvent where
  | created
  | removed
  | modified
  | renamed (side : RenameSide)
  /-- An event that changes no file. -/
  | other
deriving DecidableEq, Repr

namespace Change

/-- Whether a directory between `root` and the file at `path` has one of the given names. -/
def isIgnored (ignored : List String) (rest : List Path.Component) : Bool :=
  rest.dropLast.any fun c => ignored.contains c.text

/-- The path of a file relative to `root`, if the engine follows it: it is a source file, and in no
ignored directory. -/
def followed? (root : String) (ignored : List String) (path : String) : Option String :=
  match Path.behind? root path with
  | none => none
  | some rest =>
    if !isIgnored ignored rest && (Language.ofPath path).isSupported then Path.relative? root path
    else none

/-- The changes of an event that names `paths`. Where a rename does not say which side it names, a
path that exists is a new one. -/
def ofEvent (exists? : String → Bool) (root : String) (ignored : List String) (event : FileEvent)
    (paths : List String) : List Change :=
  let change (kind : String → ChangeKind) (path : String) : Option Change :=
    (followed? root ignored path).map fun relative => ⟨relative, kind path⟩
  match event with
  | .created | .renamed .target => paths.filterMap (change fun _ => .create)
  | .removed | .renamed .source => paths.filterMap (change fun _ => .delete)
  | .modified => paths.filterMap (change fun _ => .modify)
  | .renamed .both =>
    match paths with
    | [source, target] =>
      (change (fun _ => .delete) source).toList ++ (change (fun _ => .create) target).toList
    | _ => []
  | .renamed .unknown =>
    paths.filterMap (change fun path => if exists? path then .create else .delete)
  | .other => []

end Change

end Flowgraph

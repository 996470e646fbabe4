import Flowgraph.Imports.Basic

/-!
# Use trees

The items of a use declaration, flattened to the paths they bring into scope. A group between braces
shares the path in front of it, `self` in a group stands for the path of the group, and a glob binds
no name.
-/

namespace Flowgraph.Imports.UseTree

/-- A path brought into scope, and the name bound to it. -/
structure Leaf where
  path : List String
  name : String
deriving DecidableEq, Repr

/-- The non-empty parts of a path between double colons. -/
def segments (path : List Char) : List String :=
  (go (path.length + 1) path).filterMap fun s =>
    let s := Text.trim s
    if s.isEmpty then none else some (String.ofList s)
where
  go : Nat → List Char → List (List Char)
    | 0, s => [s]
    | n + 1, s =>
      match Text.splitOnce [':', ':'] s with
      | some (segment, rest) => segment :: go n rest
      | none => [s]

/-- The pieces between the commas outside braces, where `depth` braces are open. -/
def splitCommas : Nat → List Char → List (List Char)
  | _, [] => [[]]
  | depth, c :: cs =>
    if c == ',' && depth == 0 then [] :: splitCommas depth cs
    else
      let depth := if c == '{' then depth + 1 else if c == '}' then depth - 1 else depth
      match splitCommas depth cs with
      | [] => [[c]]
      | piece :: pieces => (c :: piece) :: pieces

/-- The items of a group that are not blank. -/
def groupItems (list : List Char) : List (List Char) :=
  (splitCommas 0 list).filter fun item => !(Text.trim item).isEmpty

/-- The leaf of an item without a group, below the path `base`. -/
def leaf? (base : List String) (item : List Char) : Option Leaf :=
  let (path, newName) := splitAlias [' ', 'a', 's', ' '] item
  let full := base ++ segments path
  let full := if full.getLast? == some "self" then full.dropLast else full
  match full.getLast? with
  | none => none
  | some last =>
    if last == "*" then none
    else some ⟨full, if newName == path then last else String.ofList newName⟩

/-- The leaves of items one after another, up to the first failure. -/
def collect (leavesOf : List Char → Except ImportError (List Leaf)) :
    List (List Char) → Except ImportError (List Leaf)
  | [] => .ok []
  | item :: items =>
    match leavesOf item with
    | .error e => .error e
    | .ok leaves =>
      match collect leavesOf items with
      | .error e => .error e
      | .ok more => .ok (leaves ++ more)

/-- The leaves of an item below the path `base`, with groups nested at most as deep as the fuel. -/
def expandFrom : Nat → List String → List Char → Except ImportError (List Leaf)
  | 0, _, _ => .ok []
  | fuel + 1, base, item =>
    let item := Text.trim item
    match Text.splitOnce ['{'] item, Text.splitOnceLast '}' item with
    | some (before, rest), some _ =>
      match Text.splitOnceLast '}' rest with
      | some (inside, _) =>
        collect (expandFrom fuel (base ++ segments before)) (groupItems inside)
      | none => .error (.bracesOutOfOrder (String.ofList item))
    | _, _ => .ok (leaf? base item).toList

/-- The leaves of a use tree. Every group is shorter than the item it is in, so the length of the tree
bounds the nesting. -/
def expand (tree : List Char) : Except ImportError (List Leaf) := expandFrom (tree.length + 1) [] tree

end Flowgraph.Imports.UseTree

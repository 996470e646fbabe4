import Std.Data.ExtTreeSet
import Flowgraph.Imports.Ecmascript
import Flowgraph.Imports.Python
import Flowgraph.Imports.Rust
import Flowgraph.Language

/-!
# Imports and exports of a file

What a file binds and what it offers to other files, by the rules of its language.
-/

namespace Flowgraph.Imports

/-- The import bindings of a text. -/
def imports (l : Language) (source : String) : Except ImportError (List ImportBinding) :=
  match l with
  | .python => .ok (Python.bindings source.toList)
  | .javaScript | .typeScript | .tsx => .ok (Ecmascript.bindings source.toList)
  | .rust => Rust.bindings source.toList
  | _ => .ok []

/-- The functions that other files may call. Without a list, they may call all. -/
def exports (l : Language) (source : String) : Option (Std.ExtTreeSet String) :=
  (names? l source.toList).map fun names => Std.ExtTreeSet.ofList names _
where
  names? (l : Language) (source : List Char) : Option (List String) :=
    match l with
    | .python => some (Python.exportedNames source)
    | .javaScript | .typeScript | .tsx => Ecmascript.exportedNames? source
    | .rust => Rust.exportedNames? source
    | _ => none

end Flowgraph.Imports

import Std.Data.ExtTreeMap
import Flowgraph.StringPair

/-!
# Call graphs

The functions of one revision of a file, each with its lines and the calls made from its body.
-/

namespace Flowgraph

/-- One function of a file. Calls stand in source order, in normalized form. -/
structure FunctionInfo where
  name : String
  startLine : Nat
  endLine : Nat
  calls : List String
deriving DecidableEq, Repr

/-- The functions of a file, each stored under its own name. -/
structure CallGraph where
  functions : Std.ExtTreeMap String FunctionInfo
  name_eq : ∀ (name : String) (f : FunctionInfo), functions[name]? = some f → f.name = name

namespace CallGraph

@[ext]
theorem ext {g h : CallGraph} (w : ∀ name : String, g.functions[name]? = h.functions[name]?) : g = h := by
  cases g; cases h
  congr
  exact Std.ExtTreeMap.ext_getElem? w

instance : DecidableEq CallGraph := fun g h =>
  decidable_of_iff (g.functions = h.functions)
    ⟨fun w => by cases g; cases h; cases w; rfl, fun w => w ▸ rfl⟩

def empty : CallGraph where
  functions := ∅
  name_eq := by simp

instance : Inhabited CallGraph := ⟨empty⟩

/-- Adds a function in place of an earlier one of its name. -/
def insert (g : CallGraph) (f : FunctionInfo) : CallGraph where
  functions := g.functions.insert f.name f
  name_eq name f' h := by
    rw [Std.ExtTreeMap.getElem?_insert] at h
    split at h
    · next heq =>
      cases h
      exact Std.LawfulEqCmp.eq_of_compare heq
    · exact g.name_eq name f' h

def get? (g : CallGraph) (name : String) : Option FunctionInfo := g.functions[name]?

def contains (g : CallGraph) (name : String) : Bool := g.functions.contains name

def size (g : CallGraph) : Nat := g.functions.size

def isEmpty (g : CallGraph) : Bool := g.functions.isEmpty

/-- The functions in the order of their names. -/
def toList (g : CallGraph) : List FunctionInfo := g.functions.values

/-- The names of the functions, in order. -/
def names (g : CallGraph) : List String := g.functions.keys

/-- The call graph with the given functions, of which a later one replaces an earlier one. -/
def ofList (fs : List FunctionInfo) : CallGraph := fs.foldl insert empty

/-- The set of all callers with their calls. -/
def edges (g : CallGraph) : StringPairs :=
  Std.ExtTreeSet.ofList (g.toList.flatMap fun f => f.calls.map fun c => (f.name, c)) _

@[simp] theorem get?_empty (name : String) : empty.get? name = none := by simp [get?, empty]

theorem get?_insert (g : CallGraph) (f : FunctionInfo) (name : String) :
    (g.insert f).get? name = if f.name = name then some f else g.get? name := by
  simp only [get?, insert, Std.ExtTreeMap.getElem?_insert, Std.LawfulEqCmp.compare_eq_iff_eq]

theorem contains_eq_isSome (g : CallGraph) (name : String) :
    g.contains name = (g.get? name).isSome := by
  simp [contains, get?]

end CallGraph

end Flowgraph

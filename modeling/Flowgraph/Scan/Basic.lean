import Flowgraph.CallGraph.Basic
import Flowgraph.Scan.Block
import Flowgraph.Scan.Header

/-!
# The header scan

Functions and calls of a file read without a grammar. Headers are recognised line by line, each line
belongs to the innermost function whose body it is in, and calls are read off the lines.
-/

namespace Flowgraph.Scan

/-- A function found by its header, with the first and the last line of it, counted from zero. -/
structure Definition where
  name : String
  first : Nat
  last : Nat
  /-- The text behind the header on its line. -/
  after : List Char
deriving DecidableEq, Repr

/-- The definition whose header is the given line `k`. -/
def definition? (l : Language) (k : Nat) (line : List Char) (below : List (List Char)) :
    Option Definition :=
  (header? l line).map fun h =>
    let length :=
      match l.blockLayout with
      | .braces => braceBlockEnd h.after below
      | .indentation => indentedBlockEnd line below
    ⟨h.name, k, k + length, h.after⟩

/-- The definitions on the lines from line `k` on. -/
def definitionsFrom (l : Language) (k : Nat) : List (List Char) → List Definition
  | [] => []
  | line :: below => (definition? l k line below).toList ++ definitionsFrom l (k + 1) below

def Definition.height (d : Definition) : Nat := d.last - d.first

/-- Whether the line `k` lies below the header of the definition and in its body. -/
def Definition.encloses (d : Definition) (k : Nat) : Bool := decide (d.first < k) && decide (k ≤ d.last)

/-- The first of the smallest definitions. -/
def smallest? : List Definition → Option Definition
  | [] => none
  | d :: ds =>
    match smallest? ds with
    | some d' => if d.height ≤ d'.height then some d else some d'
    | none => some d

/-- The definition that the line `k` belongs to: the smallest one that encloses it. -/
def owner? (ds : List Definition) (k : Nat) : Option Definition :=
  smallest? (ds.filter (·.encloses k))

/-- The calls of a definition: those behind its header, and those on the lines it owns. -/
def callsOf (ds : List Definition) (d : Definition) (k : Nat) : List (List Char) → List String
  | [] => []
  | line :: below =>
    let here :=
      if d.first == k then callsIn d.after
      else if ds.any (fun d' => d'.first == k) then []
      else if owner? ds k == some d then callsIn line
      else []
    here ++ callsOf ds d (k + 1) below

/-- The lines of a text without strings and comments. -/
def cleanLines (l : Language) (source : String) : List (List Char) :=
  (Text.lines source.toList).map (stripNoise l)

/-- The definitions found in a text. -/
def definitions (l : Language) (source : String) : List Definition :=
  definitionsFrom l 0 (cleanLines l source)

/-- The functions of a text with their calls. -/
def callGraph (l : Language) (source : String) : CallGraph :=
  let lines := cleanLines l source
  let ds := definitionsFrom l 0 lines
  CallGraph.ofList (ds.map fun d => ⟨d.name, d.first + 1, d.last + 1, callsOf ds d 0 lines⟩)

end Flowgraph.Scan

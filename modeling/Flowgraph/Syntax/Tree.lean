import Flowgraph.Call
import Flowgraph.CallGraph.Basic

/-!
# Syntax trees

Syntax trees of any vocabulary, and the walk that reads the functions and calls off a tree.
-/

namespace Flowgraph

/-- A syntax tree: the kind of the node, the role it plays for its parent, its text, the rows of its
first and last character, counted from zero, and its children in source order. -/
inductive SyntaxTree where
  | node (kind : String) (field : Option String) (text : String) (startRow endRow : Nat)
      (children : List SyntaxTree)

namespace SyntaxTree

def kind : SyntaxTree → String
  | node k _ _ _ _ _ => k

def field : SyntaxTree → Option String
  | node _ f _ _ _ _ => f

def text : SyntaxTree → String
  | node _ _ t _ _ _ => t

def startRow : SyntaxTree → Nat
  | node _ _ _ r _ _ => r

def endRow : SyntaxTree → Nat
  | node _ _ _ _ r _ => r

def children : SyntaxTree → List SyntaxTree
  | node _ _ _ _ _ cs => cs

/-- The same tree in the role `field` of its parent. -/
def inField (field : String) : SyntaxTree → SyntaxTree
  | node k _ t r r' cs => node k (some field) t r r' cs

/-- The first child in the role `field`. -/
def child? (t : SyntaxTree) (field : String) : Option SyntaxTree :=
  t.children.find? fun c => c.field == some field

end SyntaxTree

/-! ## Vocabularies -/

/-- Which nodes of a tree declare functions and which make calls. -/
structure Vocabulary where
  /-- The child that holds the name of the function declared by a node. -/
  nameOf : SyntaxTree → Option SyntaxTree
  /-- The child that holds the callee of a call. -/
  calleeOf : SyntaxTree → Option SyntaxTree

namespace Vocabulary

def isNameChar (c : Char) : Bool := Text.isAlphanumeric c || c == '_' || c == '$' || c == '#'

/-- The name in the text of a name node. A text with other characters than those of a name, such as
a pattern or a computed key, is none. -/
def nameOfText (text : String) : Option String :=
  let name := Text.trim text.toList
  if !name.isEmpty && name.all isNameChar then some (String.ofList name) else none

/-- The name of the function declared by a node. -/
def declared (v : Vocabulary) (t : SyntaxTree) : Option String :=
  (v.nameOf t).bind fun name => nameOfText name.text

/-- The call made by a node. -/
def called (v : Vocabulary) (t : SyntaxTree) : Option String :=
  (v.calleeOf t).bind fun callee => Call.normalize callee.text

end Vocabulary

/-! ## The walk -/

/-- The functions whose nodes the walk is inside of, the innermost first and each with its calls in
source order, and the functions it has left. -/
structure Walk where
  inside : List FunctionInfo
  graph : CallGraph

namespace Walk

def start : Walk := ⟨[], .empty⟩

/-- Enters the node of a function. -/
def enter (w : Walk) (name : String) (t : SyntaxTree) : Walk :=
  { w with inside := ⟨name, t.startRow + 1, t.endRow + 1, []⟩ :: w.inside }

/-- Gives a call to the innermost function. Outside every function it is dropped. -/
def record (w : Walk) (call : String) : Walk :=
  match w.inside with
  | [] => w
  | f :: outer => { w with inside := { f with calls := f.calls ++ [call] } :: outer }

/-- Leaves the node of the innermost function, which replaces an earlier one of its name. -/
def leave (w : Walk) : Walk :=
  match w.inside with
  | [] => w
  | f :: outer => ⟨outer, w.graph.insert f⟩

mutual

/-- Walks a tree in source order. A node that declares a function makes no call itself. -/
def visit (v : Vocabulary) (w : Walk) : SyntaxTree → Walk
  | .node kind field text startRow endRow children =>
    let t := .node kind field text startRow endRow children
    match v.declared t with
    | some name => (visitAll v (w.enter name t) children).leave
    | none =>
      match v.called t with
      | some call => visitAll v (w.record call) children
      | none => visitAll v w children

/-- Walks trees one after another. -/
def visitAll (v : Vocabulary) (w : Walk) : List SyntaxTree → Walk
  | [] => w
  | t :: ts => visitAll v (visit v w t) ts

end

end Walk

/-- The functions declared in a tree with the calls made from their bodies. -/
def SyntaxTree.callGraph (v : Vocabulary) (t : SyntaxTree) : CallGraph :=
  (Walk.visit v .start t).graph

end Flowgraph

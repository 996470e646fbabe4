import Flowgraph.Syntax.Tree

/-!
# Vocabularies of languages

Which nodes of the syntax trees of a language declare functions, and which make calls.
-/

namespace Flowgraph

/-! ## Python -/

/-- Functions are definitions, and calls are call expressions. -/
def Python.vocabulary : Vocabulary where
  nameOf t := if t.kind == "function_definition" then t.child? "name" else none
  calleeOf t := if t.kind == "call" then t.child? "function" else none

/-! ## JavaScript and TypeScript -/

namespace Ecmascript

/-- The kinds of a value that make the name it is given to the name of a function. -/
def functionValueKinds : List String :=
  ["arrow_function", "function_expression", "function", "generator_function"]

/-- The name of a function declared as such, as a method, or as the value of a variable or field. -/
def functionName (t : SyntaxTree) : Option SyntaxTree :=
  match t.kind with
  | "function_declaration" | "generator_function_declaration" | "method_definition" =>
    t.child? "name"
  | "variable_declarator" | "public_field_definition" | "field_definition" =>
    match t.child? "value" with
    | some v =>
      if functionValueKinds.contains v.kind then (t.child? "name").or (t.child? "property") else none
    | none => none
  | _ => none

/-- The callee of a call or the class of a new object. -/
def calleeOf (t : SyntaxTree) : Option SyntaxTree :=
  match t.kind with
  | "call_expression" => t.child? "function"
  | "new_expression" => t.child? "constructor"
  | _ => none

def vocabulary : Vocabulary := ⟨functionName, calleeOf⟩

end Ecmascript

/-! ## Rust -/

/-- Functions are items with a body, and calls are call expressions. -/
def Rust.vocabulary : Vocabulary where
  nameOf t := if t.kind == "function_item" then t.child? "name" else none
  calleeOf t := if t.kind == "call_expression" then t.child? "function" else none

end Flowgraph

/-!
# JSON

JSON values as far as records can be read from them: of the numbers only the natural ones keep their
value, and a text may be one whose escapes stand for no characters.
-/

namespace Flowgraph

inductive Json where
  | null
  | bool (b : Bool)
  | nat (n : Nat)
  /-- A number with a sign, a fraction or an exponent. -/
  | number
  /-- A text, unless one of its escapes is half of a surrogate pair. -/
  | text (s : Option String)
  | array (items : List Json)
  /-- The entries of an object as they are written, with repeated keys. -/
  | object (entries : List (Option String × Json))

namespace Json

def ofString (s : String) : Json := .text (some s)

def ofStrings (ss : List String) : Json := .array (ss.map ofString)

/-- An object with the given entries. -/
def record (entries : List (String × Json)) : Json :=
  .object (entries.map fun (key, value) => (some key, value))

/-- An entry that is left out where there is no value. -/
def entry? (key : String) (f : α → Json) : Option α → List (String × Json)
  | none => []
  | some a => [(key, f a)]

end Json

end Flowgraph

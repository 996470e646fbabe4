import Flowgraph.Call
import Flowgraph.Text.Pattern

/-!
# Import bindings

The names that a file binds to modules of other files. Module specifiers have the form of paths: a
relative one starts with `./` or `../`, and the parts of a module name stand between slashes.
-/

namespace Flowgraph

/-- A bound name and the specifiers it may stand for, the most specific first. -/
structure ImportBinding where
  name : String
  specifiers : List String
deriving DecidableEq, Repr

/-- The one reason for which the bindings of a text cannot be read: an item of a use declaration whose
first opening brace comes after its last closing one. -/
inductive ImportError where
  | bracesOutOfOrder (item : String)
deriving DecidableEq, Repr

def ImportError.message : ImportError → String
  | .bracesOutOfOrder item => "Use declaration with braces out of order: " ++ item

namespace Imports

/-- A name and its alias on either side of `separator`, or the trimmed item for both. -/
def splitAlias (separator item : List Char) : List Char × List Char :=
  let item := Text.trim item
  match Text.splitOnce separator item with
  | some (name, newName) =>
    if (Text.trim newName).isEmpty then (item, item) else (Text.trim name, Text.trim newName)
  | none => (item, item)

def binding (name : List Char) (specifiers : List (List Char)) : ImportBinding :=
  ⟨String.ofList name, specifiers.map String.ofList⟩

/-! ## Pieces of patterns -/

open Pattern

/-- Any number of spaces and tabs. -/
def gap : Pattern := many (oneOf " \t")

/-- At least one space or tab. -/
def gap1 : Pattern := many1 (oneOf " \t")

/-- A name of letters, digits and underscores. -/
def plainName : Pattern :=
  .seq (char fun c => Text.isAsciiLetter c || c == '_') (many wordChar)

/-- A name that may hold dollar signs. -/
def dollarName : Pattern :=
  .seq (char fun c => Text.isAsciiLetter c || c == '_' || c == '$')
    (many (char fun c => Text.isWordChar c || c == '$'))

def quote : Pattern := oneOf "'\""

def unquoted : Pattern := many1 (noneOf "'\"")

/-- A visibility, or nothing. -/
def optionalVisibility : Pattern :=
  optional (all [text "pub", optional (all [text "(", many (noneOf ")"), text ")"]), gap1])

/-- A word with the gap behind it, or nothing. -/
def optionalWord (w : String) : Pattern := optional (.seq (text w) gap1)

end Imports

end Flowgraph

import Flowgraph.Text.Slice

/-!
# Calls

The text of a callee, reduced to the form `function` or `module.function` in which calls are compared
and looked up across files.
-/

namespace Flowgraph.Call

/-- Words that stand before a parenthesis without being called. -/
def keywords : List String :=
  ["if", "elif", "else", "for", "foreach", "while", "switch", "case", "catch", "return", "match",
    "function", "fn", "func", "fun", "def", "class", "with", "yield", "await", "async", "typeof",
    "sizeof", "not", "and", "or", "in", "is", "assert", "lambda", "except", "del", "unless",
    "until", "loop", "go", "defer", "guard", "void"]

/-- Receivers that name the enclosing object and no module. -/
def selfReceivers : List String := ["self", "this", "cls", "super", "Self"]

/-- Drops what stands between angle brackets, blanks and exclamation marks. `depth` counts the angle
brackets that are open; a closing one without an opening one is kept. -/
def strip : Nat → List Char → List Char
  | _, [] => []
  | depth, c :: cs =>
    if c == '<' then strip (depth + 1) cs
    else if c == '>' && depth != 0 then strip (depth - 1) cs
    else if depth != 0 then strip depth cs
    else if Text.isBlank c || c == '!' then strip depth cs
    else c :: strip depth cs

/-- The non-empty pieces of a stripped callee between dots, where `?.` and `::` count as dots. -/
def segments (s : List Char) : List (List Char) :=
  (Text.splitOn '.' (Text.replacePair ':' ':' '.' (Text.replacePair '?' '.' '.' s))).filter
    (!·.isEmpty)

def isIdentifierStart (c : Char) : Bool := Text.isAlphabetic c || c == '_' || c == '$'

def isIdentifierPart (c : Char) : Bool := Text.isAlphanumeric c || c == '_' || c == '$'

def isIdentifier : List Char → Bool
  | [] => false
  | c :: cs => isIdentifierStart c && cs.all isIdentifierPart

/-- The identifiers at the end of the segments, less the self receivers that lead them. -/
def namedTail (segs : List (List Char)) : List (List Char) :=
  ((segs.reverse.takeWhile isIdentifier).reverse).dropWhile
    fun s => selfReceivers.contains (String.ofList s)

/-- The call made through a callee written as `raw`: its last identifier, after the one before it if
there is one. There is none where the callee does not end in an identifier, or ends in a keyword. -/
def normalize (raw : String) : Option String :=
  match (namedTail (segments (strip 0 raw.toList))).reverse with
  | [] => none
  | f :: before =>
    if keywords.contains (String.ofList f) then none
    else
      match before with
      | [] => some (String.ofList f)
      | m :: _ => some (String.ofList (m ++ '.' :: f))

/-- The module, if any, and the function of a normalized call. -/
def split (call : String) : Option String × String :=
  match Text.splitOnce ['.'] call.toList with
  | some (m, f) => (some (String.ofList m), String.ofList f)
  | none => (none, call)

end Flowgraph.Call

import Flowgraph.Toml.Number

/-!
# Reading TOML

Reads the entries of a document line by line. The first line that cannot be read, or that contradicts the
lines before it, makes the document unreadable, and its place is reported.
-/

namespace Flowgraph.Toml

/-! ## Blanks and comments -/

def skipSpaces (s : List Char) : List Char := s.dropWhile isSpace

/-- The text behind the comment at its start, if there is one. -/
def skipComment : List Char → List Char
  | '#' :: cs => cs.dropWhile isPlain
  | s => s

/-- What follows the rest of a line, on which only blanks and a comment may stand. -/
def endLine (s : List Char) : Except (List Char) (List Char) :=
  match skipComment (skipSpaces s) with
  | [] => .ok []
  | rest =>
    match dropNewline? rest with
    | some rest => .ok rest
    | none => .error rest

/-- Skips blanks, line breaks and comments, at most `fuel` lines of them. -/
def skipLines : Nat → List Char → Except (List Char) (List Char)
  | 0, s => .ok s
  | fuel + 1, s =>
    let s := skipSpaces s
    match dropNewline? s with
    | some rest => skipLines fuel rest
    | none =>
      match s with
      | '\r' :: _ => .error s
      | '#' :: _ =>
        match dropNewline? (skipComment s) with
        | some rest => skipLines fuel rest
        | none => .error (skipComment s)
      | _ => .ok s

/-! ## Keys -/

def isBareKeyChar (c : Char) : Bool := Text.isAsciiAlphanumeric c || c == '_' || c == '-'

/-- Reads one part of a key. -/
def readKeyPart (s : List Char) : Reading KeyPart :=
  let part (name : List Char) : KeyPart := ⟨s.length, String.ofList name⟩
  match s with
  | '"' :: cs => (readBasic cs).map fun r => (part r.1, r.2)
  | '\'' :: cs => (readLiteral cs).map fun r => (part r.1, r.2)
  | _ =>
    let name := s.takeWhile isBareKeyChar
    if name.isEmpty then .error s else .ok (part name, s.dropWhile isBareKeyChar)

/-- The number of parts that a key, and of levels that a value, stays below. -/
def depthLimit : Nat := 80

/-- Reads a key of at most `fuel` parts with the blanks around them. -/
def readKeyParts : Nat → List Char → Reading (List KeyPart)
  | 0, s => .error s
  | fuel + 1, s =>
    match readKeyPart (skipSpaces s) with
    | .error e => .error e
    | .ok (part, rest) =>
      match skipSpaces rest with
      | '.' :: rest => (readKeyParts fuel rest).map fun r => (part :: r.1, r.2)
      | rest => .ok ([part], rest)

def readKey (s : List Char) : Reading (List KeyPart) := readKeyParts (depthLimit - 1) s

/-! ## Values -/

/-- Reads a word that stands for a value. -/
def readWord (word : List Char) (value : Scalar) (s : List Char) : Reading Scalar :=
  if s.take word.length = word then .ok (value, s.drop word.length) else .error s

/-- Reads a value without parts. -/
def readScalar (s : List Char) : Reading Scalar :=
  match s with
  | [] => .error s
  | c :: _ =>
    if c == '"' || c == '\'' then (readString s).map fun r => (.text (String.ofList r.1), r.2)
    else if c == '+' || c == '-' || Text.isAsciiDigit c then readNumeric s
    else if c == 't' then readWord "true".toList (.bool true) s
    else if c == 'f' then readWord "false".toList (.bool false) s
    else if c == 'i' then readWord "inf".toList .float s
    else if c == 'n' then readWord "nan".toList .float s
    else .error s

mutual

/-- Reads a value of at most `depth` levels. -/
def readValue (depth : Nat) : Nat → List Char → Reading Item
  | 0, s => .error s
  | fuel + 1, s =>
    match s with
    | '[' :: cs =>
      if depth = 0 then .error s
      else (readItems (depth - 1) fuel cs).map fun r => (.array s.length r.1, r.2)
    | '{' :: cs =>
      if depth = 0 then .error s
      else
        match skipSpaces cs with
        | '}' :: rest => .ok (.inline s.length [], rest)
        | first =>
          match readPairs (depth - 1) fuel first with
          | .error e => .error e
          | .ok (pairs, rest) =>
            match ofPairs pairs with
            | some entries => .ok (.inline s.length entries, rest)
            | none => .error cs
    | _ => (readScalar s).map fun r => (.scalar s.length r.1, r.2)

/-- Reads the items of an array up to and with the closing bracket. -/
def readItems (depth : Nat) : Nat → List Char → Reading (List Item)
  | 0, s => .error s
  | fuel + 1, s =>
    match skipLines s.length s with
    | .error e => .error e
    | .ok (']' :: rest) => .ok ([], rest)
    | .ok s =>
      match readValue depth fuel s with
      | .error e => .error e
      | .ok (item, rest) =>
        match skipLines rest.length rest with
        | .error e => .error e
        | .ok (',' :: rest) => (readItems depth fuel rest).map fun r => (item :: r.1, r.2)
        | .ok (']' :: rest) => .ok ([item], rest)
        | .ok rest => .error rest

/-- Reads the pairs of a table in braces up to and with the closing brace. -/
def readPairs (depth : Nat) : Nat → List Char → Reading (List (List KeyPart × Item))
  | 0, s => .error s
  | fuel + 1, s =>
    match readKey s with
    | .error e => .error e
    | .ok (key, '=' :: rest) =>
      match readValue depth fuel (skipSpaces rest) with
      | .error e => .error e
      | .ok (item, rest) =>
        match skipSpaces rest with
        | ',' :: rest => (readPairs depth fuel rest).map fun r => ((key, item) :: r.1, r.2)
        | '}' :: rest => .ok ([(key, item)], rest)
        | rest => .error rest
    | .ok (_, rest) => .error rest

end

/-! ## Lines -/

/-- The entries so far, and the table that the last header has opened. -/
structure Document where
  root : Entries
  table : List KeyPart

def Document.empty : Document := ⟨[], []⟩

/-- What is left of a change to the entries; a contradiction is reported at `start`. -/
def Document.become (start : List Char) (table : List KeyPart) :
    Option Entries → Except (List Char) Document
  | some root => .ok ⟨root, table⟩
  | none => .error start

/-- Reads the header of an array of tables behind its two brackets. -/
def Document.readElementHeader (d : Document) (start s : List Char) :
    Except (List Char) (Document × List Char) := do
  let (key, rest) ← readKey s
  match rest with
  | ']' :: ']' :: rest =>
    let rest ← endLine rest
    return (← Document.become start key (openElement start.length key d.root), rest)
  | _ => throw rest

/-- Reads the header of a table behind its bracket. -/
def Document.readTableHeader (d : Document) (start s : List Char) :
    Except (List Char) (Document × List Char) := do
  let (key, rest) ← readKey s
  match rest with
  | ']' :: rest =>
    let rest ← endLine rest
    return (← Document.become start key (openTable start.length key d.root), rest)
  | _ => throw rest

/-- Reads a key with its value. -/
def Document.readPair (d : Document) (start : List Char) :
    Except (List Char) (Document × List Char) := do
  let (key, rest) ← readKey start
  match rest with
  | '=' :: rest =>
    let (item, rest) ← readValue (depthLimit - 1) (2 * start.length + 2) (skipSpaces rest)
    let rest ← endLine rest
    return (← Document.become start d.table (addToTable d.table key item d.root), rest)
  | _ => throw rest

/-- Reads what stands on the next line. -/
def Document.readLine (d : Document) (s : List Char) : Except (List Char) (Document × List Char) :=
  match s with
  | '[' :: '[' :: cs => d.readElementHeader s cs
  | '[' :: cs => d.readTableHeader s cs
  | _ => d.readPair s

/-- Reads at most `fuel` lines. -/
def Document.readLines : Nat → Document → List Char → Except (List Char) Document
  | 0, d, _ => .ok d
  | fuel + 1, d, s =>
    match skipSpaces s with
    | [] => .ok d
    | s =>
      if s.head? == some '#' || s.head? == some '\n' || s.head? == some '\r' then
        match endLine s with
        | .ok rest => readLines fuel d rest
        | .error e => .error e
      else
        match d.readLine s with
        | .ok (d, rest) => readLines fuel d rest
        | .error e => .error e

/-- A text without the mark of its encoding. -/
def skipMark : List Char → List Char
  | '\ufeff' :: cs => cs
  | s => s

/-- The entries of a document, or the place where it cannot be read. -/
def parse (text : List Char) : Except Nat Entries :=
  match Document.readLines (text.length + 1) .empty (skipMark text) with
  | .ok d => .ok d.root
  | .error rest => .error rest.length

end Flowgraph.Toml

/-!
# TOML documents

The values of a TOML document, each with its place, and the tables that its lines build. A place in a
text is given by the number of characters from there to the end of the text.
-/

namespace Flowgraph.Toml

/-- A value without parts. -/
inductive Scalar where
  | text (s : String)
  | integer (n : Int)
  | float
  | bool (b : Bool)
  /-- A date, a time, or both. -/
  | time
deriving DecidableEq, Repr

/-- How a table has come up. -/
inductive TableKind where
  /-- By a header of its own. -/
  | header
  /-- By the header of a table below it. -/
  | implied
  /-- By a dotted key. -/
  | dotted
deriving DecidableEq, Repr

inductive Item where
  | scalar (place : Nat) (value : Scalar)
  | array (place : Nat) (items : List Item)
  /-- A table in braces, which later lines cannot extend. -/
  | inline (place : Nat) (entries : List (String × Item))
  | table (place : Nat) (kind : TableKind) (entries : List (String × Item))
  /-- An array of tables, with the latest one first. -/
  | tables (latest : Item) (earlier : List Item)

/-- The entries of a table in the order of their first lines. -/
abbrev Entries := List (String × Item)

/-- A part of a key with its place. -/
structure KeyPart where
  place : Nat
  name : String
deriving DecidableEq, Repr

/-! ## Places -/

/-- The line and the column of a place, both from one on. -/
structure Position where
  line : Nat
  column : Nat
deriving DecidableEq, Repr

/-- The position behind some characters. -/
def Position.after (p : Position) : List Char → Position
  | [] => p
  | c :: cs => after (if c == '\n' then ⟨p.line + 1, 1⟩ else ⟨p.line, p.column + 1⟩) cs

/-- The position of a place. The end of a text lies on its last line, behind the last character. -/
def Position.ofPlace (text : List Char) (place : Nat) : Position :=
  let before := text.take (text.length - place)
  if place = 0 then
    let p := Position.after ⟨1, 1⟩ before.dropLast
    if text.isEmpty then p else ⟨p.line, p.column + 1⟩
  else Position.after ⟨1, 1⟩ before

/-! ## Entries -/

def lookup? (name : String) : Entries → Option Item
  | [] => none
  | (n, item) :: rest => if n = name then some item else lookup? name rest

/-- The entries with that of one name replaced, or added at the end. -/
def replace (name : String) (item : Item) : Entries → Entries
  | [] => [(name, item)]
  | (n, old) :: rest => if n = name then (n, item) :: rest else (n, old) :: replace name item rest

/-- Changes the table that a path of keys leads to from the given entries. A table that is not there is
made, of the given kind, and `extends` tells which tables the path may lead through. -/
def changeAt (made : TableKind) (extends? : TableKind → Bool)
    (change : TableKind → Entries → Option Entries) :
    List KeyPart → TableKind → Entries → Option Entries
  | [], kind, entries => change kind entries
  | key :: path, _, entries =>
    match lookup? key.name entries with
    | none =>
      (changeAt made extends? change path made []).map fun es =>
        replace key.name (.table key.place made es) entries
    | some (.table place kind es) =>
      if extends? kind then
        (changeAt made extends? change path kind es).map fun es =>
          replace key.name (.table place kind es) entries
      else none
    | some (.tables (.table place kind es) earlier) =>
      (changeAt made extends? change path kind es).map fun es =>
        replace key.name (.tables (.table place kind es) earlier) entries
    | some _ => none

/-- Adds an entry of a name that has none yet. -/
def addNew (name : String) (item : Item) (entries : Entries) : Option Entries :=
  match lookup? name entries with
  | some _ => none
  | none => some (entries ++ [(name, item)])

/-- Splits a key into the path to a table and the last part. -/
def splitLast? : List KeyPart → Option (List KeyPart × KeyPart)
  | [] => none
  | [key] => some ([], key)
  | key :: keys => (splitLast? keys).map fun r => (key :: r.1, r.2)

/-- Adds a value under a key that may be dotted. A dotted key leads only through tables made by dotted
keys. -/
def addPair (key : List KeyPart) (item : Item) (entries : Entries) : Option Entries :=
  match splitLast? key with
  | none => none
  | some (path, last) =>
    changeAt .dotted (· != .header)
      (fun kind entries =>
        if path.isEmpty || kind == .dotted then addNew last.name item entries else none)
      path .header entries

/-- Adds the pairs of a table in braces one after another. -/
def ofPairs (pairs : List (List KeyPart × Item)) : Option Entries :=
  pairs.foldlM (fun entries pair => addPair pair.1 pair.2 entries) []

/-- Opens the table of a header. It must be new, or implied by the header of a table below it. -/
def openTable (place : Nat) (key : List KeyPart) (root : Entries) : Option Entries :=
  match splitLast? key with
  | none => none
  | some (path, last) =>
    changeAt .implied (fun _ => true)
      (fun _ entries =>
        match lookup? last.name entries with
        | none => some (entries ++ [(last.name, .table place .header [])])
        | some (.table _ .implied es) => some (replace last.name (.table place .header es) entries)
        | some _ => none)
      path .header root

/-- Opens one more table of an array of tables. -/
def openElement (place : Nat) (key : List KeyPart) (root : Entries) : Option Entries :=
  match splitLast? key with
  | none => none
  | some (path, last) =>
    let element := Item.table place .header []
    changeAt .implied (fun _ => true)
      (fun _ entries =>
        match lookup? last.name entries with
        | none => some (entries ++ [(last.name, .tables element [])])
        | some (.tables latest earlier) =>
          some (replace last.name (.tables element (latest :: earlier)) entries)
        | some _ => none)
      path .header root

/-- Adds a pair to the table that the last header has opened. -/
def addToTable (table key : List KeyPart) (item : Item) (root : Entries) : Option Entries :=
  changeAt .implied (fun _ => true) (fun _ entries => addPair key item entries) table .header root

end Flowgraph.Toml

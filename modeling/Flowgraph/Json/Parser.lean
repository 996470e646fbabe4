import Flowgraph.Json.Basic
import Flowgraph.Text.Hex

/-!
# Reading JSON

Reads a value from the start of a text and gives back the rest of the text. Nothing but blanks may
follow the value of a whole text.
-/

namespace Flowgraph.Json

/-! ## Blanks, words and numbers -/

def isSpace (c : Char) : Bool := c == ' ' || c == '\n' || c == '\t' || c == '\r'

def skipSpace (s : List Char) : List Char := s.dropWhile isSpace

/-- The text behind a word. -/
def parseWord? : List Char → List Char → Option (List Char)
  | [], s => some s
  | _ :: _, [] => none
  | w :: ws, c :: cs => if w == c then parseWord? ws cs else none

/-- The number written by decimal digits, of which `n` stands for those before. -/
def digitsValue (n : Nat) : List Char → Nat
  | [] => n
  | c :: cs => digitsValue (10 * n + (c.toNat - 48)) cs

/-- The digits at the start of a text, of which there must be one, and the rest. -/
def parseDigits? (s : List Char) : Option (List Char × List Char) :=
  match s.takeWhile Text.isAsciiDigit with
  | [] => none
  | ds => some (ds, s.dropWhile Text.isAsciiDigit)

/-- Reads a fraction if there is one: whether there is, and the rest. -/
def parseFraction? : List Char → Option (Bool × List Char)
  | '.' :: cs => (parseDigits? cs).map fun r => (true, r.2)
  | s => some (false, s)

/-- Reads an exponent if there is one: whether there is, and the rest. -/
def parseExponent? : List Char → Option (Bool × List Char)
  | c :: cs =>
    if c == 'e' || c == 'E' then
      let digits :=
        match cs with
        | d :: ds => if d == '+' || d == '-' then ds else cs
        | [] => []
      (parseDigits? digits).map fun r => (true, r.2)
    else some (false, c :: cs)
  | [] => some (false, [])

/-- Reads a number without a sign. -/
def parseUnsigned? (s : List Char) : Option (Json × List Char) :=
  match parseDigits? s with
  | none => none
  | some (ds, rest) =>
    if ds.head? == some '0' && ds.length != 1 then none
    else
      match parseFraction? rest with
      | none => none
      | some (fraction, rest) =>
        match parseExponent? rest with
        | none => none
        | some (exponent, rest) =>
          some (if fraction || exponent then .number else .nat (digitsValue 0 ds), rest)

/-- Reads a number. -/
def parseNumber? : List Char → Option (Json × List Char)
  | '-' :: cs => (parseUnsigned? cs).map fun r => (.number, r.2)
  | s => parseUnsigned? s

/-! ## Texts -/

/-- The number written by four hexadecimal digits. -/
def hexUnit? (a b c d : Char) : Option Nat :=
  match Text.hexValue? a, Text.hexValue? b, Text.hexValue? c, Text.hexValue? d with
  | some a, some b, some c, some d => some (((a * 16 + b) * 16 + c) * 16 + d)
  | _, _, _, _ => none

def isHighSurrogate (n : Nat) : Bool := decide (0xD800 ≤ n) && decide (n < 0xDC00)

def isLowSurrogate (n : Nat) : Bool := decide (0xDC00 ≤ n) && decide (n < 0xE000)

/-- The character of an escape of one letter. -/
def escapedChar? (c : Char) : Option Char :=
  if c == '"' || c == '\\' || c == '/' then some c
  else if c == 'b' then some '\x08'
  else if c == 'f' then some '\x0c'
  else if c == 'n' then some '\n'
  else if c == 'r' then some '\r'
  else if c == 't' then some '\t'
  else none

/-- A character between quotes, or the unit that an escape of four digits stands for. -/
inductive TextPiece where
  | char (c : Char)
  | unit (n : Nat)

/-- Reads the pieces of a text behind its opening quote, and the rest behind the closing quote. -/
def parsePieces? : List Char → Option (List TextPiece × List Char)
  | [] => none
  | '"' :: cs => some ([], cs)
  | '\\' :: 'u' :: a :: b :: c :: d :: cs =>
    match hexUnit? a b c d with
    | none => none
    | some n => (parsePieces? cs).map fun r => (.unit n :: r.1, r.2)
  | '\\' :: c :: cs =>
    match escapedChar? c with
    | none => none
    | some e => (parsePieces? cs).map fun r => (.char e :: r.1, r.2)
  | c :: cs =>
    if c == '\\' || c.toNat < 32 then none
    else (parsePieces? cs).map fun r => (.char c :: r.1, r.2)

/-- The characters that pieces stand for. A high surrogate and the low one behind it stand for one
character, and a surrogate elsewhere stands for none. -/
def joinPieces? : List TextPiece → Option (List Char)
  | [] => some []
  | .char c :: ps => (joinPieces? ps).map (c :: ·)
  | .unit n :: .unit m :: ps =>
    if isHighSurrogate n then
      if isLowSurrogate m then
        (joinPieces? ps).map (Char.ofNat (0x10000 + (n - 0xD800) * 1024 + (m - 0xDC00)) :: ·)
      else none
    else if isLowSurrogate n then none
    else (joinPieces? (.unit m :: ps)).map (Char.ofNat n :: ·)
  | .unit n :: ps =>
    if isHighSurrogate n || isLowSurrogate n then none
    else (joinPieces? ps).map (Char.ofNat n :: ·)

/-- Reads a text behind its opening quote. -/
def parseString? (s : List Char) : Option (Option String × List Char) :=
  (parsePieces? s).map fun r => ((joinPieces? r.1).map String.ofList, r.2)

/-! ## Values -/

mutual

/-- Reads a value, with at most `fuel` values, items and entries nested in or behind one another. -/
def parseValue? : Nat → List Char → Option (Json × List Char)
  | 0, _ => none
  | fuel + 1, s =>
    match skipSpace s with
    | [] => none
    | c :: cs =>
      if c == '"' then (parseString? cs).map fun r => (.text r.1, r.2)
      else if c == '[' then
        match skipSpace cs with
        | ']' :: rest => some (.array [], rest)
        | _ => (parseItems? fuel cs).map fun r => (.array r.1, r.2)
      else if c == '{' then
        match skipSpace cs with
        | '}' :: rest => some (.object [], rest)
        | _ => (parseEntries? fuel cs).map fun r => (.object r.1, r.2)
      else if c == 'n' then (parseWord? ['u', 'l', 'l'] cs).map fun r => (.null, r)
      else if c == 't' then (parseWord? ['r', 'u', 'e'] cs).map fun r => (.bool true, r)
      else if c == 'f' then (parseWord? ['a', 'l', 's', 'e'] cs).map fun r => (.bool false, r)
      else parseNumber? (c :: cs)

/-- Reads items up to and with the closing bracket. -/
def parseItems? : Nat → List Char → Option (List Json × List Char)
  | 0, _ => none
  | fuel + 1, s =>
    match parseValue? fuel s with
    | none => none
    | some (item, rest) =>
      match skipSpace rest with
      | ',' :: rest => (parseItems? fuel rest).map fun r => (item :: r.1, r.2)
      | ']' :: rest => some ([item], rest)
      | _ => none

/-- Reads entries up to and with the closing brace. -/
def parseEntries? : Nat → List Char → Option (List (Option String × Json) × List Char)
  | 0, _ => none
  | fuel + 1, s =>
    match skipSpace s with
    | '"' :: cs =>
      match parseString? cs with
      | none => none
      | some (key, rest) =>
        match skipSpace rest with
        | ':' :: rest =>
          match parseValue? fuel rest with
          | none => none
          | some (value, rest) =>
            match skipSpace rest with
            | ',' :: rest => (parseEntries? fuel rest).map fun r => ((key, value) :: r.1, r.2)
            | '}' :: rest => some ([(key, value)], rest)
            | _ => none
        | _ => none
    | _ => none

end

/-- The value of a text. Every value, item and entry takes a character, so the length of the text
bounds their number. -/
def parse? (s : String) : Option Json :=
  match parseValue? (2 * s.toList.length + 2) s.toList with
  | none => none
  | some (j, rest) => if (skipSpace rest).isEmpty then some j else none

end Flowgraph.Json

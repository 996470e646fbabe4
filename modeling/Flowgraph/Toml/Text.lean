import Flowgraph.Text.Hex

/-!
# Texts in TOML

The four forms of strings. A reader gives what it has read with the rest of the text, or the rest of the
text from where it fails on.
-/

namespace Flowgraph.Toml

/-- What has been read from the start of a text and the rest, or the rest where reading fails. -/
abbrev Reading (α : Type) := Except (List Char) (α × List Char)

def isSpace (c : Char) : Bool := c == ' ' || c == '\t'

/-- A character that may stand in a comment and between quotes: no control character but a tab. -/
def isPlain (c : Char) : Bool := c == '\t' || (decide (32 ≤ c.toNat) && c.toNat != 127)

/-- What follows a line break at the start of a text. -/
def dropNewline? : List Char → Option (List Char)
  | '\n' :: cs => some cs
  | '\r' :: '\n' :: cs => some cs
  | _ => none

/-! ## Escapes -/

/-- The character of an escape of one letter. -/
def escapedChar? (c : Char) : Option Char :=
  if c == '"' || c == '\\' then some c
  else if c == 'b' then some '\x08'
  else if c == 't' then some '\t'
  else if c == 'n' then some '\n'
  else if c == 'f' then some '\x0c'
  else if c == 'r' then some '\r'
  else none

/-- The number written by hexadecimal digits, of which `n` stands for those before. -/
def hexNumber? (n : Nat) : List Char → Option Nat
  | [] => some n
  | c :: cs =>
    match Text.hexValue? c with
    | some d => hexNumber? (16 * n + d) cs
    | none => none

/-- The character of a code point in hexadecimal digits. -/
def codePoint? (digits : List Char) : Option Char :=
  match hexNumber? 0 digits with
  | some n => if n.isValidChar then some (Char.ofNat n) else none
  | none => none

/-! ## Strings on one line -/

/-- Puts a character in front of what a reader has read. -/
def consRead (c : Char) : Reading (List Char) → Reading (List Char)
  | .ok (cs, rest) => .ok (c :: cs, rest)
  | .error rest => .error rest

/-- Reads a string behind its opening quote. -/
def readBasic : List Char → Reading (List Char)
  | [] => .error []
  | '"' :: cs => .ok ([], cs)
  | '\\' :: 'u' :: a :: b :: c :: d :: cs =>
    match codePoint? [a, b, c, d] with
    | some e => consRead e (readBasic cs)
    | none => .error (a :: b :: c :: d :: cs)
  | '\\' :: 'U' :: a :: b :: c :: d :: e :: f :: g :: h :: cs =>
    match codePoint? [a, b, c, d, e, f, g, h] with
    | some e => consRead e (readBasic cs)
    | none => .error (a :: b :: c :: d :: e :: f :: g :: h :: cs)
  | '\\' :: c :: cs =>
    match escapedChar? c with
    | some e => consRead e (readBasic cs)
    | none => .error cs
  | c :: cs => if isPlain c && c != '\\' then consRead c (readBasic cs) else .error (c :: cs)

/-- Reads a string without escapes behind its opening apostrophe. -/
def readLiteral : List Char → Reading (List Char)
  | [] => .error []
  | '\'' :: cs => .ok ([], cs)
  | c :: cs => if isPlain c then consRead c (readLiteral cs) else .error (c :: cs)

/-! ## Strings over several lines -/

/-- The quotes that stand before the three closing ones, at most two, and the rest. -/
def extraQuotes (quote : Char) : List Char → List Char × List Char
  | c :: d :: cs =>
    if c == quote then if d == quote then ([c, d], cs) else ([c], d :: cs) else ([], c :: d :: cs)
  | [c] => if c == quote then ([c], []) else ([], [c])
  | [] => ([], [])

/-- Reads a string behind its three opening quotes. While `skipping`, blanks and line breaks behind a
backslash at the end of a line are left out. -/
def readLongBasic (skipping : Bool) : List Char → Reading (List Char)
  | [] => .error []
  | '"' :: '"' :: '"' :: cs => .ok (extraQuotes '"' cs)
  | '"' :: cs => consRead '"' (readLongBasic false cs)
  | '\\' :: 'u' :: a :: b :: c :: d :: cs =>
    match codePoint? [a, b, c, d] with
    | some e => consRead e (readLongBasic false cs)
    | none => .error (a :: b :: c :: d :: cs)
  | '\\' :: 'U' :: a :: b :: c :: d :: e :: f :: g :: h :: cs =>
    match codePoint? [a, b, c, d, e, f, g, h] with
    | some e => consRead e (readLongBasic false cs)
    | none => .error (a :: b :: c :: d :: e :: f :: g :: h :: cs)
  | '\\' :: c :: cs =>
    match escapedChar? c with
    | some e => consRead e (readLongBasic false cs)
    | none =>
      if (dropNewline? ((c :: cs).dropWhile isSpace)).isSome then readLongBasic true (c :: cs)
      else .error cs
  | '\r' :: '\n' :: cs =>
    if skipping then readLongBasic true cs else consRead '\n' (readLongBasic false cs)
  | c :: cs =>
    if skipping && (isSpace c || c == '\n') then readLongBasic true cs
    else if c == '\n' || (isPlain c && c != '\\') then consRead c (readLongBasic false cs)
    else .error (c :: cs)

/-- Reads a string without escapes behind its three opening apostrophes. -/
def readLongLiteral : List Char → Reading (List Char)
  | [] => .error []
  | '\'' :: '\'' :: '\'' :: cs => .ok (extraQuotes '\'' cs)
  | '\r' :: '\n' :: cs => consRead '\n' (readLongLiteral cs)
  | c :: cs =>
    if c == '\n' || isPlain c then consRead c (readLongLiteral cs) else .error (c :: cs)

/-- A text without the line break at its start. -/
def skipNewline (s : List Char) : List Char := (dropNewline? s).getD s

/-- Reads a string of any form. -/
def readString : List Char → Reading (List Char)
  | '"' :: '"' :: '"' :: cs => readLongBasic false (skipNewline cs)
  | '"' :: cs => readBasic cs
  | '\'' :: '\'' :: '\'' :: cs => readLongLiteral (skipNewline cs)
  | '\'' :: cs => readLiteral cs
  | s => .error s

end Flowgraph.Toml

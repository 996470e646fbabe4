import Flowgraph.Text.Slice

/-!
# Ends of blocks

Where the body of a function ends, given the lines from its header on: at the brace that closes it, or
before the first line that is not indented deeper than the header. Lines are counted from the header.
-/

namespace Flowgraph.Scan

/-! ## Braces -/

/-- The braces open so far, and whether there has been one. -/
structure Braces where
  depth : Nat
  opened : Bool
deriving DecidableEq, Repr

/-- Reads the characters of a line. There is no state behind the line where the block ends on it: at its
closing brace, or at a semicolon before any brace. -/
def Braces.read : Braces → List Char → Option Braces
  | b, [] => some b
  | b, c :: cs =>
    if c == '{' then Braces.read ⟨b.depth + 1, true⟩ cs
    else if c == '}' && b.opened then
      if b.depth - 1 == 0 then none else Braces.read ⟨b.depth - 1, true⟩ cs
    else if c == ';' && !b.opened then none
    else Braces.read b cs

/-- The line on which the block ends, from line `k` on. A blank line before any brace ends the block on
the line above it. A block that is never closed runs to the last line, and one that is never opened
ends on its header. -/
def braceEndFrom (k : Nat) (b : Braces) : List (List Char) → Nat
  | [] => if b.opened then k - 1 else 0
  | line :: below =>
    if !b.opened && k != 0 && (Text.trim line).isEmpty then k - 1
    else
      match b.read line with
      | none => k
      | some b' => braceEndFrom (k + 1) b' below

/-- The last line of a block delimited by braces, given the text behind its header and the lines
below. -/
def braceBlockEnd (after : List Char) (below : List (List Char)) : Nat :=
  braceEndFrom 0 ⟨0, false⟩ (after :: below)

/-! ## Indentation -/

/-- The width of the blanks at the start of a line, where a tab counts four. -/
def indentWidth : List Char → Nat
  | [] => 0
  | c :: cs => if Text.isBlank c then (if c == '\t' then 4 else 1) + indentWidth cs else 0

/-- The number of brackets a line opens, less those it closes. The number has no bounds here: what a
counter of 32 bits makes of 2 ^ 31 brackets or more in one header is left out. -/
def bracketBalance (line : List Char) : Int :=
  line.foldl (fun n c =>
    if c == '(' || c == '[' then n + 1 else if c == ')' || c == ']' then n - 1 else n) 0

/-- The line on which the brackets of the header balance, or else the last line. -/
def headerEndFrom (k : Nat) (balance : Int) : List (List Char) → Nat
  | [] => k - 1
  | line :: below =>
    let balance := balance + bracketBalance line
    if balance ≤ 0 then k else headerEndFrom (k + 1) balance below

/-- The last line of the block, where `last` is the last one known to belong to it. A line `end` at the
indentation of the header closes the block. -/
def indentEndFrom (base last k : Nat) : List (List Char) → Nat
  | [] => last
  | line :: below =>
    let trimmed := Text.trim line
    if trimmed.isEmpty then indentEndFrom base last (k + 1) below
    else if indentWidth line ≤ base then
      if trimmed == ['e', 'n', 'd'] && indentWidth line == base then k else last
    else indentEndFrom base k (k + 1) below

/-- The last line of a block delimited by indentation, given its header line and the lines below. -/
def indentedBlockEnd (header : List Char) (below : List (List Char)) : Nat :=
  let headerEnd := headerEndFrom 0 0 (header :: below)
  indentEndFrom (indentWidth header) headerEnd (headerEnd + 1) (below.drop headerEnd)

end Flowgraph.Scan

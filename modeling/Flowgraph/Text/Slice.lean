import Flowgraph.Text.CharClass

/-!
# Cutting text

Trimming, searching, splitting and replacing on lists of characters. Every function is total: a
piece that is not there is `none`, never an index out of range.
-/

namespace Flowgraph.Text

/-! ## Trimming -/

/-- Drops the blanks in front. -/
def trimStart (s : List Char) : List Char := s.dropWhile isBlank

/-- Drops the trailing characters that satisfy `p`. -/
def dropEndWhile (p : Char → Bool) (s : List Char) : List Char :=
  s.foldr (fun c rest => if rest.isEmpty && p c then [] else c :: rest) []

/-- Drops the blanks at the end. -/
def trimEnd (s : List Char) : List Char := dropEndWhile isBlank s

/-- Drops the blanks at both ends. -/
def trim (s : List Char) : List Char := trimEnd (trimStart s)

/-! ## Prefixes and suffixes -/

/-- What follows `lead` at the start of the text. -/
def dropLead? : List Char → List Char → Option (List Char)
  | [], s => some s
  | _ :: _, [] => none
  | p :: ps, c :: cs => if p == c then dropLead? ps cs else none

/-- Drops `lead` from the start as often as it stands there. -/
def dropLeads (lead : List Char) : Nat → List Char → List Char
  | 0, s => s
  | n + 1, s =>
    match dropLead? lead s with
    | some rest => dropLeads lead n rest
    | none => s

/-- What precedes `tail` at the end of the text. -/
def dropTail? (tail s : List Char) : Option (List Char) :=
  (dropLead? tail.reverse s.reverse).map List.reverse

/-! ## Searching and splitting -/

/-- The text before and after the first occurrence of `needle`. -/
def splitOnce (needle : List Char) : List Char → Option (List Char × List Char)
  | [] => if needle.isEmpty then some ([], []) else none
  | c :: cs =>
    match dropLead? needle (c :: cs) with
    | some rest => some ([], rest)
    | none => (splitOnce needle cs).map fun (before, after) => (c :: before, after)

/-- The text before and after the last occurrence of the character `d`. -/
def splitOnceLast (d : Char) : List Char → Option (List Char × List Char)
  | [] => none
  | c :: cs =>
    match splitOnceLast d cs with
    | some (before, after) => some (c :: before, after)
    | none => if c == d then some ([], cs) else none

/-- The pieces between the characters that satisfy `p`; a text without one is its own piece. -/
def splitWhere (p : Char → Bool) : List Char → List (List Char)
  | [] => [[]]
  | c :: cs =>
    if p c then [] :: splitWhere p cs
    else
      match splitWhere p cs with
      | [] => [[c]]
      | piece :: pieces => (c :: piece) :: pieces

/-- The pieces between the occurrences of the character `d`. -/
def splitOn (d : Char) (s : List Char) : List (List Char) := splitWhere (· == d) s

/-- The pieces, joined by `glue`. -/
def join (glue : List Char) : List (List Char) → List Char
  | [] => []
  | [piece] => piece
  | piece :: pieces => piece ++ glue ++ join glue pieces

/-- Every occurrence of the two characters `a`, `b` in a row replaced by `d`, from the left. -/
def replacePair (a b d : Char) : List Char → List Char
  | [] => []
  | [c] => [c]
  | c :: c' :: cs =>
    if c == a && c' == b then d :: replacePair a b d cs else c :: replacePair a b d (c' :: cs)

/-- The lines of a text: the pieces before each line feed, less a carriage return before it, and
what follows the last line feed unless it is empty. -/
def lines (s : List Char) : List (List Char) :=
  go (splitOn '\n' s)
where
  go : List (List Char) → List (List Char)
    | [] => []
    | [last] => if last.isEmpty then [] else [last]
    | line :: rest => ((dropTail? ['\r'] line).getD line) :: go rest

end Flowgraph.Text

import Flowgraph.Text.Pattern

/-!
# Globs

Patterns of paths with wildcards. `?` and `*` do not match a slash, `**` between slashes matches any
number of directories, and alternatives stand in braces. Paths are matched byte by byte in UTF-8, so `?`
is one byte.
-/

namespace Flowgraph.Glob

/-! ## Bytes -/

/-- The bytes of a character, each as a character of its own. -/
def bytesOf (c : Char) : List Char :=
  (String.utf8EncodeChar c).map fun b => Char.ofNat b.toNat

def bytes (s : List Char) : List Char := s.flatMap bytesOf

/-! ## Pieces -/

/-- A part of a glob. The three forms of `**` stand for directories, the others for a pattern. -/
inductive Piece where
  /-- `**` at the start, with the slash behind it. -/
  | leading
  /-- `**` at the end, with the slash before it. -/
  | trailing
  /-- `**` with the slashes around it. -/
  | between
  | other (pattern : Pattern)

def anyByte : Pattern := .char fun _ => true

def slash : Pattern := Pattern.text "/"

def notSlash : Pattern := Pattern.noneOf "/"

def star : Piece := .other (Pattern.many notSlash)

def literal (c : Char) : Piece := .other (Pattern.all ((bytesOf c).map fun b => .char (· == b)))

def Piece.pattern : Piece → Pattern
  | leading => .alt (Pattern.optional slash) (.seq (Pattern.many anyByte) slash)
  | trailing => .seq slash (Pattern.many anyByte)
  | between => .alt slash (Pattern.all [slash, Pattern.many anyByte, slash])
  | other p => p

/-- The pattern of pieces one after another. -/
def join (pieces : List Piece) : Pattern := Pattern.all (pieces.map Piece.pattern)

/-- Alternatives, of which empty ones do not count. -/
def alternatives (branches : List (List Piece)) : Piece :=
  match branches.filter fun b => !b.isEmpty with
  | [] => .other .empty
  | branches => .other (Pattern.any (branches.map join))

/-! ## Classes -/

/-- The bytes in a range of characters: those of both ends, and those between the last byte of the
lower and the first byte of the upper end. -/
def rangeHas (lo hi b : Char) : Bool :=
  let low := bytesOf lo
  let high := bytesOf hi
  low.contains b || high.contains b ||
    (decide ((low.getLast?.getD lo).toNat ≤ b.toNat) && decide (b.toNat ≤ (high.head?.getD hi).toNat))

def classPiece (negated : Bool) (ranges : List (Char × Char)) : Piece :=
  .other (.char fun b => (ranges.any fun r => rangeHas r.1 r.2 b) != negated)

/-- A class that has been read: its ranges, unless one of them runs backwards, and the rest. -/
structure ReadClass where
  ranges : Option (List (Char × Char))
  rest : List Char

/-- Reads the ranges of a class up to its closing bracket, given those so far from the last one on, and
whether a dash has been read behind the last one. A bracket or a dash that comes first stands for
itself, and so does a dash that comes last. -/
def readRanges (first dash : Bool) (ranges : List (Char × Char)) : List Char → Option ReadClass
  | [] => none
  | c :: cs =>
    if c == ']' && !first then some ⟨some (if dash then ('-', '-') :: ranges else ranges), cs⟩
    else if c == '-' && !first && !dash then readRanges false true ranges cs
    else
      match dash, ranges with
      | true, (lo, _) :: earlier =>
        if lo.toNat ≤ c.toNat then readRanges false false ((lo, c) :: earlier) cs
        else some ⟨none, cs⟩
      | _, _ => readRanges false false ((c, c) :: ranges) cs

/-- Whether a class behind its opening bracket matches what its ranges do not hold. -/
def isNegated (s : List Char) : Bool := s.head? == some '!' || s.head? == some '^'

/-- Reads a class behind its opening bracket. -/
def readClass? (s : List Char) : Option ReadClass :=
  readRanges true false [] (if isNegated s then s.drop 1 else s)

/-! ## Parsing -/

/-- A group of alternatives that is still open: what stands before it, and its branches so far. -/
structure OpenGroup where
  before : List Piece
  branches : List (List Piece)

/-- The pieces so far, the last one first, with `**` behind a slash put in place of that slash. -/
def replaceSlash (piece : Piece) : List Piece → List Piece
  | .leading :: pieces => .leading :: pieces
  | .trailing :: pieces => .trailing :: pieces
  | _ :: pieces => piece :: pieces
  | [] => [piece]

/-- Reads pieces, given the open groups from the innermost on, the pieces of the current branch from the
last on, and the character before. -/
def readPieces : Nat → List OpenGroup → List Piece → Option Char → List Char → Option (List Piece)
  | 0, _, _, _, _ => none
  | _ + 1, groups, pieces, _, [] => if groups.isEmpty then some pieces.reverse else none
  | fuel + 1, groups, pieces, prev, c :: cs =>
    if c == '?' then readPieces fuel groups (.other notSlash :: pieces) (some c) cs
    else if c == '*' then
      match cs with
      | '*' :: rest =>
        let stars (_ : Unit) := readPieces fuel groups (star :: star :: pieces) (some '*') rest
        if pieces.isEmpty then
          match rest with
          | [] => readPieces fuel groups [.leading] (some '*') []
          | d :: more =>
            if d == '/' then readPieces fuel groups [.leading] (some '/') more else stars ()
        else if prev != some '/' then stars ()
        else
          match rest with
          | [] => readPieces fuel groups (replaceSlash .trailing pieces) (some '*') []
          | d :: more =>
            if d == '/' then readPieces fuel groups (replaceSlash .between pieces) (some '/') more
            else if !groups.isEmpty && (d == ',' || d == '}') then
              readPieces fuel groups (replaceSlash .trailing pieces) (some '*') rest
            else stars ()
      | _ => readPieces fuel groups (star :: pieces) (some c) cs
    else if c == '[' then
      match readClass? cs with
      | some ⟨some ranges, rest⟩ =>
        readPieces fuel groups (classPiece (isNegated cs) ranges :: pieces) (some ']') rest
      | some ⟨none, _⟩ => none
      | none => readPieces fuel groups (literal c :: pieces) (some c) cs
    else if c == '{' then readPieces fuel (⟨pieces, []⟩ :: groups) [] (some c) cs
    else if c == '}' then
      match groups with
      | [] => none
      | g :: outer =>
        readPieces fuel outer (alternatives (g.branches ++ [pieces.reverse]) :: g.before) (some c) cs
    else if c == ',' then
      match groups with
      | [] => readPieces fuel groups (literal c :: pieces) (some c) cs
      | g :: outer =>
        readPieces fuel (⟨g.before, g.branches ++ [pieces.reverse]⟩ :: outer) [] (some c) cs
    else if c == '\\' then
      match cs with
      | [] => none
      | d :: rest => readPieces fuel groups (literal d :: pieces) (some d) rest
    else readPieces fuel groups (literal c :: pieces) (some c) cs

/-- The pattern of a glob. `**` alone matches every path. -/
def pattern? (glob : List Char) : Option Pattern :=
  match readPieces (glob.length + 1) [] [] none glob with
  | some [.leading] => some (Pattern.many anyByte)
  | some pieces => some (join pieces)
  | none => none

end Flowgraph.Glob

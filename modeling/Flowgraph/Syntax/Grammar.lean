import Flowgraph.Syntax.Tree

/-!
# Grammars

Grammars as data, and the reader that runs one on a text. A grammar is made of parsing expressions:
choice is ordered, and a repetition takes as much as it can. Blanks and comments may stand before
every token. Text that no rule covers is passed over, so that reading has a result for every text.
-/

namespace Flowgraph

/-! ## Reading positions -/

/-- A position in a text, with what decides how line breaks count there. -/
structure Cursor where
  rest : List Char
  /-- The number of characters read. -/
  offset : Nat
  row : Nat
  /-- Whether an open bracket joins the lines. -/
  joined : Bool
  /-- The indentation of the innermost open block. -/
  margin : Nat

namespace Cursor

def ofText (text : List Char) : Cursor := ⟨text, 0, 0, false, 0⟩

/-- Moves over `n` characters. -/
def advance : Nat → Cursor → Cursor
  | 0, c => c
  | n + 1, c =>
    match c.rest with
    | [] => c
    | ch :: rest =>
      advance n
        { c with rest, offset := c.offset + 1, row := if ch == '\n' then c.row + 1 else c.row }

/-- The characters between a position and a later one. -/
def textUpTo (c later : Cursor) : String := String.ofList (c.rest.take (later.offset - c.offset))

end Cursor

/-! ## Parsing expressions -/

/-- A parsing expression over the nonterminals `N`. -/
inductive Grammar.Expr (N : Type) where
  /-- A token, as the number of its characters. Zero is no token. -/
  | token (length : List Char → Nat)
  /-- A token before which no blank may stand. -/
  | adjacent (length : List Char → Nat)
  | rule (n : N)
  | seq (parts : List (Expr N))
  | choice (options : List (Expr N))
  | many (part : Expr N)
  /-- Succeeds without reading where `part` can be read. -/
  | ahead (part : Expr N)
  /-- Succeeds without reading where `part` cannot be read. -/
  | absent (part : Expr N)
  /-- Succeeds without reading where no line break precedes the next token. -/
  | sameLine
  /-- What `part` reads as a node. -/
  | node (kind : String) (part : Expr N)
  /-- What `part` reads in a role of the enclosing node. -/
  | field (name : String) (part : Expr N)
  /-- `head`, then any number of suffixes. A `link` extends the expression, and a `call` makes it the
  child `role` of a node. -/
  | postfixed (head link call : Expr N) (kind role : String)
  /-- `part` with its lines joined. -/
  | joinLines (part : Expr N)
  /-- Succeeds without reading where the line ends. -/
  | lineEnd
  /-- Moves to the next line that is not blank, if it has the indentation of the open block. -/
  | nextLine
  /-- `part` as a block indented deeper than the open one, with the comments that trail it. -/
  | indented (part : Expr N)

/-- A grammar: the blanks that may stand before a token, where lines are joined and where they are not,
and an expression for each nonterminal. -/
structure Grammar (N : Type) where
  blanks : Bool → List Char → Nat
  rule : N → Grammar.Expr N

namespace Grammar

/-! ## Layout -/

/-- The blanks at the start of a line: their number, and the column they lead to. A tab counts eight
columns. -/
def lineIndent : Nat → Nat → List Char → Nat × Nat
  | n, col, c :: cs =>
    if c == ' ' then lineIndent (n + 1) (col + 1) cs
    else if c == '\t' then lineIndent (n + 1) (col + 8) cs
    else if c == '\r' || c == '\x0c' then lineIndent (n + 1) 0 cs
    else (n, col)
  | n, col, [] => (n, col)

/-- Where a line starts that is neither blank nor a comment. -/
structure LineStart where
  skipped : Nat
  column : Nat
  atEnd : Bool

/-- The first line that is neither blank nor a comment, from a position at the start of a line, with
the number of characters before its first token. -/
def firstLine : Nat → Nat → List Char → LineStart
  | 0, skipped, _ => ⟨skipped, 0, true⟩
  | fuel + 1, skipped, s =>
    let (n, col) := lineIndent 0 0 s
    match s.drop n with
    | [] => ⟨skipped + n, 0, true⟩
    | '\n' :: rest => firstLine fuel (skipped + n + 1) rest
    | '#' :: rest =>
      let comment := rest.takeWhile (· != '\n')
      match rest.dropWhile (· != '\n') with
      | [] => ⟨skipped + n + 1 + comment.length, 0, true⟩
      | _ :: rest' => firstLine fuel (skipped + n + comment.length + 2) rest'
    | '\\' :: '\n' :: rest => firstLine fuel (skipped + n + 2) rest
    | _ => ⟨skipped + n, col, false⟩

/-- The number of characters up to the end of the line, where nothing but blanks and a comment is left
of it. -/
def restOfLine? (s : List Char) : Option Nat :=
  let blank := s.takeWhile fun c => c != '\n' && Text.isBlank c
  match s.dropWhile fun c => c != '\n' && Text.isBlank c with
  | [] => some blank.length
  | '\n' :: _ => some blank.length
  | '#' :: rest => some (blank.length + 1 + (rest.takeWhile (· != '\n')).length)
  | _ => none

/-- The line after the current one that is neither blank nor a comment. -/
def lineBelow? (c : Cursor) : Option LineStart :=
  match restOfLine? c.rest with
  | none => none
  | some n =>
    match c.rest.drop n with
    | [] => none
    | _ :: below => some (firstLine below.length (n + 1) below)

/-- The next comment with a line of its own: the characters up to its end, and its column. -/
def commentBelow? : Nat → Nat → List Char → Option (Nat × Nat)
  | 0, _, _ => none
  | fuel + 1, skipped, s =>
    let (n, col) := lineIndent 0 0 s
    match s.drop n with
    | '\n' :: rest => commentBelow? fuel (skipped + n + 1) rest
    | '#' :: rest => some (skipped + n + 1 + (rest.takeWhile (· != '\n')).length, col)
    | _ => none

/-- Moves over the comments that trail a block: those below it that are indented like the block. -/
def trailingComments : Nat → Cursor → Cursor
  | 0, c => c
  | fuel + 1, c =>
    match restOfLine? c.rest with
    | none => c
    | some n =>
      match c.rest.drop n with
      | [] => c
      | _ :: below =>
        match commentBelow? (below.length + 1) (n + 1) below with
        | none => c
        | some (length, col) =>
          if c.margin ≤ col then trailingComments fuel (c.advance length) else c

/-! ## Reading -/

/-- What was read: the position behind it and the nodes in it. -/
abbrev Reading := Option (Cursor × List SyntaxTree)

/-- A token behind the blanks that `skip` counts. -/
def readToken (skip : List Char → Nat) (length : List Char → Nat) (c : Cursor) : Reading :=
  let c := c.advance (skip c.rest)
  match length c.rest with
  | 0 => none
  | n => some (c.advance n, [])

/-- The parts one after another. -/
def readSeq {N : Type} (read : Expr N → Cursor → Reading) : List (Expr N) → Cursor → Reading
  | [], c => some (c, [])
  | e :: es, c =>
    match read e c with
    | none => none
    | some (c, ts) =>
      match readSeq read es c with
      | none => none
      | some (c, ts') => some (c, ts ++ ts')

/-- The first option that can be read. -/
def readChoice {N : Type} (read : Expr N → Cursor → Reading) : List (Expr N) → Cursor → Reading
  | [], _ => none
  | e :: es, c =>
    match read e c with
    | some r => some r
    | none => readChoice read es c

/-- As many readings as there are, at most `n`, each of which must move on. -/
def readMany (read : Cursor → Reading) : Nat → Cursor → Cursor × List SyntaxTree
  | 0, c => (c, [])
  | n + 1, c =>
    match read c with
    | none => (c, [])
    | some (c', ts) =>
      if c.offset < c'.offset then
        let (c'', ts') := readMany read n c'
        (c'', ts ++ ts')
      else (c, [])

/-- As many suffixes as there are behind an expression that starts at `start` and has been read up to
`c` with the nodes `ts`. -/
def readSuffixes (start : Cursor) (link call : Cursor → Reading) (kind role : String) :
    Nat → Cursor → List SyntaxTree → Cursor × List SyntaxTree
  | 0, c, ts => (c, ts)
  | n + 1, c, ts =>
    match link c with
    | some (c', ts') => readSuffixes start link call kind role n c' (ts ++ ts')
    | none =>
      match call c with
      | none => (c, ts)
      | some (c', ts') =>
        let callee := .node "expression" (some role) (start.textUpTo c) start.row c.row ts
        let whole := .node kind none (start.textUpTo c') start.row c'.row (callee :: ts')
        readSuffixes start link call kind role n c' [whole]

/-- Reads an expression of a grammar, nested at most as deep as the fuel. -/
def read {N : Type} (g : Grammar N) : Nat → Expr N → Cursor → Reading
  | 0, _, _ => none
  | fuel + 1, e, c =>
    match e with
    | .token length => readToken (g.blanks c.joined) length c
    | .adjacent length => readToken (fun _ => 0) length c
    | .rule n => read g fuel (g.rule n) c
    | .seq parts => readSeq (read g fuel) parts c
    | .choice options => readChoice (read g fuel) options c
    | .many part => some (readMany (read g fuel part) fuel c)
    | .ahead part => (read g fuel part c).map fun _ => (c, [])
    | .absent part => if (read g fuel part c).isNone then some (c, []) else none
    | .sameLine =>
      let next := c.advance (g.blanks c.joined c.rest)
      if next.row == c.row then some (c, []) else none
    | .node kind part =>
      let start := c.advance (g.blanks c.joined c.rest)
      (read g fuel part start).map fun (c', ts) =>
        (c', [.node kind none (start.textUpTo c') start.row c'.row ts])
    | .field name part =>
      (read g fuel part c).map fun (c', ts) => (c', ts.map (SyntaxTree.inField name))
    | .postfixed head link call kind role =>
      let start := c.advance (g.blanks c.joined c.rest)
      (read g fuel head start).map fun (c', ts) =>
        readSuffixes start (read g fuel link) (read g fuel call) kind role fuel c' ts
    | .joinLines part =>
      (read g fuel part { c with joined := true }).map fun (c', ts) =>
        ({ c' with joined := c.joined }, ts)
    | .lineEnd => (restOfLine? c.rest).map fun _ => (c, [])
    | .nextLine =>
      match lineBelow? c with
      | some l => if !l.atEnd && l.column == c.margin then some (c.advance l.skipped, []) else none
      | none => none
    | .indented part =>
      match lineBelow? c with
      | some l =>
        if !l.atEnd && c.margin < l.column then
          (read g fuel part { c with margin := l.column }).map fun (c', ts) =>
            ({ trailingComments (c'.rest.length + 1) c' with margin := c.margin }, ts)
        else none
      | none => none

/-- The nodes of a text that is a sequence of what `e` reads. A character at which it reads nothing is
passed over. -/
def readText {N : Type} (g : Grammar N) (e : Expr N) (text : String) : SyntaxTree :=
  let start := Cursor.ofText text.toList
  let length := start.rest.length
  let item : Expr N := .choice [e, .token fun s => if s.isEmpty then 0 else 1]
  let (last, ts) := readMany (read g (200 * length + 1000) item) (length + 1) start
  .node "source" none text 0 last.row ts

/-! ## Common tokens -/

/-- The length of `word` where the text starts with it. -/
def literalLength (word : List Char) (s : List Char) : Nat :=
  if (Text.dropLead? word s).isSome then word.length else 0

/-- A sign. -/
def sign {N : Type} (word : String) : Expr N := .token (literalLength word.toList)

/-- A sign behind which none of the characters of `others` stands. -/
def signNot {N : Type} (word others : String) : Expr N :=
  .token fun s =>
    match Text.dropLead? word.toList s with
    | some (c :: _) => if others.toList.contains c then 0 else word.toList.length
    | some [] => word.toList.length
    | none => 0

/-- A keyword, where `isPart` says which characters would continue it. -/
def keyword {N : Type} (isPart : Char → Bool) (word : String) : Expr N :=
  .token fun s =>
    match Text.dropLead? word.toList s with
    | some (c :: _) => if isPart c then 0 else word.toList.length
    | some [] => word.toList.length
    | none => 0

/-- The part or nothing. -/
def optional {N : Type} (part : Expr N) : Expr N := .choice [part, .seq []]

end Grammar

end Flowgraph

import Flowgraph.Syntax.Grammar

/-!
# Python

The grammar of Python as far as functions and calls depend on it. Operators are read without regard
to their precedence, since neither the extent of a callee nor the order of calls depends on it.
-/

namespace Flowgraph.Python

open Grammar (Expr sign signNot optional)

/-! ## Tokens -/

def isNameStart (c : Char) : Bool := Text.isAlphabetic c || c == '_'

def isNamePart (c : Char) : Bool := Text.isWordChar c

/-- Words that are no names. -/
def reserved : List String :=
  ["and", "as", "assert", "async", "await", "break", "class", "continue", "def", "del", "elif",
    "else", "except", "finally", "for", "from", "global", "if", "import", "in", "is", "lambda",
    "nonlocal", "not", "or", "pass", "raise", "return", "try", "while", "with", "yield"]

/-- The length of the name or reserved word at the start of the text. -/
def wordLength : List Char → Nat
  | c :: cs => if isNameStart c then (cs.takeWhile isNamePart).length + 1 else 0
  | [] => 0

def nameLength (s : List Char) : Nat :=
  let n := wordLength s
  if reserved.contains (String.ofList (s.take n)) then 0 else n

/-- Blanks: white space on the line, joined lines, and between brackets line breaks and comments. -/
def blanks (joined : Bool) : List Char → Nat
  | '\\' :: '\r' :: '\n' :: cs => blanks joined cs + 3
  | '\\' :: '\n' :: cs => blanks joined cs + 2
  | '#' :: cs => if joined then comment cs + 1 else 0
  | c :: cs =>
    if c == '\n' then if joined then blanks joined cs + 1 else 0
    else if Text.isBlank c || c == '\ufeff' || c == '\u2060' || c == '\u200b' then
      blanks joined cs + 1
    else 0
  | [] => 0
where
  comment : List Char → Nat
    | c :: cs => if c == '\n' then blanks true cs + 1 else comment cs + 1
    | [] => 0

def isDigitOrUnderscore (c : Char) : Bool := Text.isAsciiDigit c || c == '_'

/-- An exponent and the letters that may end a number. -/
def numberTail (s : List Char) : Nat :=
  let digits (s : List Char) := (s.takeWhile isDigitOrUnderscore).length
  let (n, rest) :=
    match s with
    | e :: d :: rest =>
      if e == 'e' || e == 'E' then
        if Text.isAsciiDigit d then (2 + digits rest, rest.drop (digits rest))
        else if (d == '+' || d == '-') && digits rest != 0 then
          (2 + digits rest, rest.drop (digits rest))
        else (0, s)
      else (0, s)
    | _ => (0, s)
  match rest with
  | c :: _ => if ['j', 'J', 'l', 'L'].contains c then n + 1 else n
  | [] => n

def numberLength : List Char → Nat
  | '0' :: x :: cs =>
    if ['x', 'X', 'o', 'O', 'b', 'B'].contains x then
      (cs.takeWhile fun c => Text.isAsciiAlphanumeric c || c == '_').length + 2
    else decimal ('0' :: x :: cs)
  | '.' :: d :: cs =>
    if Text.isAsciiDigit d then
      let n := (cs.takeWhile isDigitOrUnderscore).length
      2 + n + numberTail (cs.drop n)
    else 0
  | c :: cs => if Text.isAsciiDigit c then decimal (c :: cs) else 0
  | [] => 0
where
  decimal (s : List Char) : Nat :=
    let n := (s.takeWhile isDigitOrUnderscore).length
    match s.drop n with
    | '.' :: rest =>
      let m := (rest.takeWhile isDigitOrUnderscore).length
      n + 1 + m + numberTail (rest.drop m)
    | rest => n + numberTail rest

/-! ## Strings -/

/-- The quotes that delimit a string, longest first. -/
def quotes : List (List Char) := [['"', '"', '"'], ['\'', '\'', '\''], ['"'], ['\'']]

/-- The letters in front of a string. -/
def stringPrefix (s : List Char) : List Char :=
  s.takeWhile fun c => ['f', 'F', 'r', 'R', 'b', 'B', 'u', 'U'].contains c

def isFormatPrefix (p : List Char) : Bool := p.contains 'f' || p.contains 'F'

def isRawPrefix (p : List Char) : Bool := p.contains 'r' || p.contains 'R'

/-- The length of the text up to and with the closing quote. A single quote closes on its own line. -/
def closeLength (quote : List Char) : List Char → Option Nat
  | [] => none
  | '\\' :: _ :: cs => (closeLength quote cs).map (· + 2)
  | c :: cs =>
    if (Text.dropLead? quote (c :: cs)).isSome then some quote.length
    else if c == '\n' && quote.length == 1 then none
    else (closeLength quote cs).map (· + 1)

/-- A string without interpolations, or zero. -/
def plainStringLength (s : List Char) : Nat :=
  let p := stringPrefix s
  if 3 < p.length || isFormatPrefix p then 0
  else
    let body := s.drop p.length
    match quotes.find? fun q => (Text.dropLead? q body).isSome with
    | none => 0
    | some q =>
      match closeLength q (body.drop q.length) with
      | some n => p.length + q.length + n
      | none => 0

/-- The opening of a string with interpolations between the given quotes. -/
def formatOpenLength (quote : List Char) (raw : Bool) (s : List Char) : Nat :=
  let p := stringPrefix s
  let body := s.drop p.length
  if p.length ≤ 3 && isFormatPrefix p && isRawPrefix p == raw &&
      quotes.find? (fun q => (Text.dropLead? q body).isSome) == some quote then
    p.length + quote.length
  else 0

/-- The text of a string with interpolations up to the next interpolation or the closing quote. -/
def formatTextLength (quote : List Char) (raw : Bool) (s : List Char) : Nat :=
  go s.length s
where
  go : Nat → List Char → Nat
    | 0, _ => 0
    | _, [] => 0
    | n + 1, c :: cs =>
      if (Text.dropLead? quote (c :: cs)).isSome then 0
      else
        match c, cs with
        | '{', '{' :: rest => go n rest + 2
        | '{', _ => 0
        | '\\', 'N' :: '{' :: rest =>
          if raw then go n cs + 1
          else
            let m := (rest.takeWhile (· != '}')).length
            go n (rest.drop m) + m + 3
        | '\\', '{' :: _ => go n cs + 1
        | '\\', d :: rest =>
          if raw && !(quote.contains d) && d != '\\' then go n cs + 1 else go n rest + 2
        | _, _ => go n cs + 1

/-- The text of a format specification up to the next interpolation or the closing brace. -/
def formatSpecLength (s : List Char) : Nat := (s.takeWhile fun c => c != '{' && c != '}').length

/-! ## Text without calls -/

/-- The length of the text up to a sign at which `stop` holds, outside brackets and strings. -/
def balancedLength (stop : List Char → Bool) (s : List Char) : Nat :=
  go s.length 0 s
where
  go : Nat → Nat → List Char → Nat
    | 0, _, _ => 0
    | _, _, [] => 0
    | n + 1, depth, c :: cs =>
      if depth == 0 && stop (c :: cs) then 0
      else if c == '"' || c == '\'' then
        let m := max 1 (plainStringLength (c :: cs))
        go n depth ((c :: cs).drop m) + m
      else if c == '#' then
        let m := (cs.takeWhile (· != '\n')).length
        go n depth (cs.drop m) + m + 1
      else if ['(', '[', '{'].contains c then go n (depth + 1) cs + 1
      else if [')', ']', '}'].contains c then go n (depth - 1) cs + 1
      else if c == '\\' then go n depth (cs.drop 1) + min 2 (cs.length + 1)
      else go n depth cs + 1

/-- A pattern of a `case` clause, up to its guard or colon. -/
def patternLength (s : List Char) : Nat :=
  balancedLength
    (fun rest =>
      match rest with
      | ':' :: _ => true
      | c :: 'i' :: 'f' :: d :: _ => Text.isBlank c && !isNamePart d
      | _ => false)
    s

/-- A statement up to its end. -/
def statementLength (s : List Char) : Nat :=
  balancedLength
    (fun rest =>
      match rest with
      | c :: _ => c == '\n' || c == ';'
      | [] => true)
    s

def commentLength : List Char → Nat
  | '#' :: cs => (cs.takeWhile (· != '\n')).length + 1
  | _ => 0

/-- The rest of a line. -/
def restLength (s : List Char) : Nat := (s.takeWhile (· != '\n')).length

/-! ## Rules -/

inductive Rule where
  | statement
  | simple
  | suite
  | parameters
  | parameter (annotated : Bool)
  | items
  | expression
  | operand
  | atom
  | subscript
  | interpolation

abbrev E := Expr Rule

def kw (w : String) : E := Grammar.keyword isNamePart w

def name : E := .token nameLength

def word : E := .token wordLength

/-- Items between commas, of which any may be missing. -/
def commaList (item : E) : E :=
  .seq [optional item, .many (.seq [sign ",", optional item])]

/-- A list between brackets. -/
def bracketed (opening : String) (item : E) (closing : String) : E :=
  .seq [sign opening, .joinLines (.seq [commaList item, sign closing])]

/-- The targets and values of a loop. A list of targets that ends with a comma ends before `in`. -/
def loopItems : E := .seq [.rule .items, optional (.seq [kw "in", .rule .items])]

/-- The clauses of a comprehension behind its element. -/
def comprehension : E := .many (.seq [optional (kw "async"), kw "for", loopItems])

/-- An element between brackets: an expression, a keyword argument or the entry of a dictionary. -/
def element : E :=
  .seq [.rule .expression, optional (.seq [.choice [signNot "=" "=", sign ":"], .rule .expression]),
    comprehension]

/-- Signs and words between operands. -/
def infixOperator : E :=
  .choice [
    .choice ((["**", "//", ">>", "<<", "+", "-", "*", "/", "%", "@", "&", "|", "^"]).map
      fun op => signNot op "="),
    .choice ((["<=", ">=", "==", "!=", "<>", ":=", "<", ">"]).map sign),
    .choice ((["and", "or", "in", "is", "if", "else", "as"]).map kw),
    .seq [kw "not", kw "in"]]

def prefixOperator : E :=
  .choice [kw "not", kw "await", signNot "**" "=", signNot "*" "=", sign "-", sign "+", sign "~"]

def formatString (quote : List Char) (raw : Bool) : E :=
  .seq [.token (formatOpenLength quote raw),
    .many (.choice [.adjacent (formatTextLength quote raw), .rule .interpolation]),
    .adjacent (Grammar.literalLength quote)]

def string : E :=
  .choice (.token plainStringLength ::
    quotes.flatMap fun q => [formatString q false, formatString q true])

def assignment : E :=
  .seq [.rule .items,
    .choice [
      .seq [.choice ((["+=", "-=", "*=", "/=", "//=", "%=", "**=", ">>=", "<<=", "&=", "^=", "|=",
        "@="]).map sign), .rule .items],
      .seq [optional (.seq [sign ":", .rule .expression]),
        .many (.seq [signNot "=" "=", .rule .items])]]]

/-- Whether a simple statement ends here. -/
def statementEnd : E := .choice [.lineEnd, .ahead (sign ";")]

def optionalItems : E := optional (.rule .items)

def simpleStatement : E :=
  .choice [
    .seq [.choice [kw "import", kw "from", kw "global", kw "nonlocal"], .token statementLength],
    .seq [kw "return", optionalItems],
    .seq [kw "raise", optionalItems, optional (.seq [kw "from", .rule .items])],
    .seq [kw "del", .rule .items],
    .seq [kw "assert", .rule .items],
    .choice [kw "pass", kw "break", kw "continue"],
    .seq [assignment, statementEnd],
    .seq [kw "print", .rule .items],
    .seq [kw "exec", .rule .items],
    .seq [kw "type", name, optional (.rule .subscript), signNot "=" "=", .rule .expression]]

def functionDefinition : E :=
  .node "function_definition" (.seq [optional (kw "async"), kw "def",
    .field "name" (.node "identifier" name), optional (.rule .subscript), .rule .parameters,
    optional (.seq [sign "->", .rule .expression]), sign ":", .rule .suite])

def classDefinition : E :=
  .seq [kw "class", name, optional (.rule .subscript), optional (bracketed "(" element ")"),
    sign ":", .rule .suite]

def decoration : E := .seq [sign "@", .rule .expression, .lineEnd, .nextLine]

/-- A further clause of a compound statement, on a line of its own. -/
def clause (head : E) : E := .seq [.nextLine, head, sign ":", .rule .suite]

def elseClause : E := optional (clause (kw "else"))

def compoundStatement : E :=
  .choice [
    functionDefinition,
    classDefinition,
    .seq [.many decoration, .choice [functionDefinition, classDefinition]],
    .seq [kw "if", .rule .expression, sign ":", .rule .suite,
      .many (clause (.seq [kw "elif", .rule .expression])), elseClause],
    .seq [kw "while", .rule .expression, sign ":", .rule .suite, elseClause],
    .seq [optional (kw "async"), kw "for", loopItems, sign ":", .rule .suite, elseClause],
    .seq [optional (kw "async"), kw "with", .rule .items, sign ":", .rule .suite],
    .seq [kw "try", sign ":", .rule .suite,
      .many (clause (.seq [kw "except", optional (sign "*"), optionalItems])), elseClause,
      optional (clause (kw "finally"))],
    .seq [kw "match", .rule .items, sign ":", .indented (.seq [matchCase, .many matchCase])]]
where
  matchCase : E :=
    .seq [.nextLine, kw "case", .token patternLength,
      optional (.seq [kw "if", .rule .expression]), sign ":", .rule .suite]

/-- The rules of the grammar. A name followed by its argument list is a call, whatever stands before
the list. -/
def rules : Rule → E
  | .statement => .choice [compoundStatement, .rule .simple]
  | .simple =>
    .seq [simpleStatement, .many (.seq [sign ";", simpleStatement]), optional (sign ";"), .lineEnd]
  | .suite =>
    let line : E := .seq [.nextLine, .choice [.rule .statement, .token restLength]]
    .choice [.indented (.seq [line, .many line]), .rule .simple, .lineEnd]
  | .parameters => bracketed "(" (.rule (.parameter true)) ")"
  | .parameter annotated =>
    .choice [
      signNot "/" "=",
      .seq [.choice [sign "**", sign "*"], optional name, annotation annotated],
      .seq [name, annotation annotated, optional (.seq [signNot "=" "=", .rule .expression])],
      .seq [bracketed "(" (.rule (.parameter false)) ")",
        optional (.seq [signNot "=" "=", .rule .expression])]]
  | .items =>
    .seq [.rule .expression, .many (.seq [sign ",", .rule .expression]), optional (sign ",")]
  | .expression => .seq [.rule .operand, .many (.seq [infixOperator, .rule .operand])]
  | .operand =>
    .choice [
      .seq [prefixOperator, .rule .operand],
      .seq [kw "lambda", commaList (.rule (.parameter false)), sign ":", .rule .expression],
      .seq [kw "yield", optional (kw "from"), optionalItems],
      .postfixed (.rule .atom) (.choice [.seq [sign ".", word], .rule .subscript])
        (bracketed "(" element ")") "call" "function"]
  | .atom =>
    .choice [
      .seq [string, .many string],
      name,
      .token numberLength,
      bracketed "(" element ")",
      bracketed "[" element "]",
      bracketed "\x7b" element "\x7d",
      sign "..."]
  | .subscript =>
    bracketed "["
      (.seq [.choice [.rule .expression, .ahead (sign ":")],
        .many (.seq [.choice [sign ":", signNot "=" "="], optional (.rule .expression)]),
        comprehension]) "]"
  | .interpolation =>
    .seq [.adjacent (Grammar.literalLength ['{']),
      .joinLines (.seq [.rule .items, optional (signNot "=" "="),
        optional (.seq [sign "!", name]),
        optional (.seq [sign ":",
          .many (.choice [.adjacent formatSpecLength, .rule .interpolation])]),
        sign "\x7d"])]
where
  annotation (annotated : Bool) : E :=
    if annotated then optional (.seq [sign ":", .rule .expression]) else .seq []

def grammar : Grammar Rule := ⟨blanks, rules⟩

/-- The syntax tree of a source text. -/
def readSource (source : String) : SyntaxTree :=
  Grammar.readText grammar (.choice [.token commentLength, .rule .statement]) source

end Flowgraph.Python

import Flowgraph.Syntax.Grammar

/-!
# Rust

The grammar of Rust as far as functions and calls depend on it. Operators are read without regard to
their precedence. Patterns, attributes and the arguments of macros are read as balanced text, since no
call can stand in them.
-/

namespace Flowgraph.Rust

open Grammar (Expr sign signNot optional)

/-! ## Tokens -/

def isNameStart (c : Char) : Bool := Text.isAlphabetic c || c == '_'

def isNamePart (c : Char) : Bool := Text.isWordChar c

/-- Words that are no names. -/
def reserved : List String :=
  ["as", "async", "await", "break", "const", "continue", "dyn", "else", "enum", "extern", "fn",
    "for", "if", "impl", "in", "let", "loop", "match", "mod", "move", "mut", "pub", "ref",
    "return", "static", "struct", "trait", "type", "unsafe", "use", "where", "while"]

def wordLength : List Char → Nat
  | c :: cs => if isNameStart c then (cs.takeWhile isNamePart).length + 1 else 0
  | [] => 0

def nameLength : List Char → Nat
  | 'r' :: '#' :: cs =>
    match wordLength cs with
    | 0 => 0
    | n => n + 2
  | s =>
    let n := wordLength s
    if reserved.contains (String.ofList (s.take n)) then 0 else n

/-- The length of a block comment behind its opening, where `depth` further ones are open. -/
def blockCommentLength : Nat → List Char → Nat
  | depth, '*' :: '/' :: cs =>
    match depth with
    | 0 => 2
    | d + 1 => blockCommentLength d cs + 2
  | depth, '/' :: '*' :: cs => blockCommentLength (depth + 1) cs + 2
  | depth, _ :: cs => blockCommentLength depth cs + 1
  | _, [] => 0

/-- The length of the comment at the start of the text. -/
def commentLength : List Char → Nat
  | '/' :: '/' :: cs => (cs.takeWhile (· != '\n')).length + 2
  | '/' :: '*' :: cs => blockCommentLength 0 cs + 2
  | _ => 0

mutual

/-- White space and comments. -/
def blanks : List Char → Nat
  | '/' :: '/' :: cs => blanksBehindLine cs + 2
  | '/' :: '*' :: cs => blanksBehindBlock 0 cs + 2
  | c :: cs => if Text.isBlank c then blanks cs + 1 else 0
  | [] => 0

/-- The rest of a comment up to the end of its line, and the blanks behind it. -/
def blanksBehindLine : List Char → Nat
  | c :: cs => (if c == '\n' then blanks cs else blanksBehindLine cs) + 1
  | [] => 0

/-- The rest of a block comment, in which `depth` further ones are open, and the blanks behind it. -/
def blanksBehindBlock : Nat → List Char → Nat
  | depth, '*' :: '/' :: cs =>
    match depth with
    | 0 => blanks cs + 2
    | d + 1 => blanksBehindBlock d cs + 2
  | depth, '/' :: '*' :: cs => blanksBehindBlock (depth + 1) cs + 2
  | depth, _ :: cs => blanksBehindBlock depth cs + 1
  | _, [] => 0

end

/-- The length of a string behind its opening quote. -/
def stringTail (quote : Char) : List Char → Nat
  | '\\' :: _ :: cs => stringTail quote cs + 2
  | c :: cs => if c == quote then 1 else stringTail quote cs + 1
  | [] => 0

/-- The length of a raw string behind its opening quote. -/
def rawStringTail (closing : List Char) : List Char → Nat
  | [] => 0
  | c :: cs =>
    if (Text.dropLead? closing (c :: cs)).isSome then closing.length
    else rawStringTail closing cs + 1

def rawStringLength (s : List Char) : Nat :=
  let hashes := s.takeWhile (· == '#')
  match s.drop hashes.length with
  | '"' :: cs => hashes.length + 1 + rawStringTail ('"' :: hashes) cs
  | _ => 0

/-- The length of a string of any form, or zero. -/
def stringLength : List Char → Nat
  | '"' :: cs => stringTail '"' cs + 1
  | 'b' :: '"' :: cs | 'c' :: '"' :: cs => stringTail '"' cs + 2
  | 'r' :: cs =>
    match rawStringLength cs with
    | 0 => 0
    | n => n + 1
  | 'b' :: 'r' :: cs | 'c' :: 'r' :: cs =>
    match rawStringLength cs with
    | 0 => 0
    | n => n + 2
  | _ => 0

/-- The length of a character literal, or zero. A lifetime is none. -/
def charLength : List Char → Nat
  | '\'' :: '\\' :: _ :: cs => stringTail '\'' cs + 3
  | '\'' :: _ :: '\'' :: _ => 3
  | 'b' :: '\'' :: '\\' :: _ :: cs => stringTail '\'' cs + 4
  | 'b' :: '\'' :: _ :: '\'' :: _ => 4
  | _ => 0

def lifetimeLength (s : List Char) : Nat :=
  if charLength s != 0 then 0
  else
    match s with
    | '\'' :: cs =>
      match wordLength cs with
      | 0 => 0
      | n => n + 1
    | _ => 0

def isDigitOrUnderscore (c : Char) : Bool := Text.isAsciiDigit c || c == '_'

/-- A number. A dot belongs to it unless a range, a field or a method follows. -/
def numberLength (s : List Char) : Nat :=
  match s with
  | '0' :: x :: cs =>
    if ['x', 'o', 'b'].contains x then (cs.takeWhile isNamePart).length + 2 else decimal s
  | c :: _ => if Text.isAsciiDigit c then decimal s else 0
  | [] => 0
where
  tail (s : List Char) : Nat :=
    let (n, rest) :=
      match s with
      | e :: d :: rest =>
        if (e == 'e' || e == 'E') && (d == '+' || d == '-') then (2, rest) else (0, s)
      | _ => (0, s)
    n + (rest.takeWhile isNamePart).length
  decimal (s : List Char) : Nat :=
    let n := (s.takeWhile isDigitOrUnderscore).length
    match s.drop n with
    | '.' :: rest =>
      match rest with
      | d :: _ =>
        if Text.isAsciiDigit d then
          let m := (rest.takeWhile isDigitOrUnderscore).length
          n + 1 + m + tail (rest.drop m)
        else if d == '.' || isNameStart d then n
        else n + 1
      | [] => n + 1
    | rest => n + tail rest

def digitsLength (s : List Char) : Nat := (s.takeWhile Text.isAsciiDigit).length

/-! ## Balanced text -/

/-- The length of a comment, string or character literal, or of one character. -/
def lexemeLength (s : List Char) : Nat :=
  max 1 (max (commentLength s) (max (stringLength s) (charLength s)))

/-- The length of the text up to a sign at which `stop` holds, outside brackets and literals. -/
def balancedLength (stop : Char → Bool) (s : List Char) : Nat :=
  go s.length 0 s
where
  go : Nat → Nat → List Char → Nat
    | 0, _, _ => 0
    | _, _, [] => 0
    | n + 1, depth, c :: cs =>
      if depth == 0 && stop c then 0
      else if ['(', '[', '{'].contains c then go n (depth + 1) cs + 1
      else if [')', ']', '}'].contains c then go n (depth - 1) cs + 1
      else
        let m := min (lexemeLength (c :: cs)) (cs.length + 1)
        go n depth ((c :: cs).drop m) + m

/-- The length of a group of brackets with everything in it. -/
def groupLength : List Char → Nat
  | c :: cs =>
    if ['(', '[', '{'].contains c then
      let n := balancedLength (fun d => d == ')' || d == ']' || d == '}') cs
      n + min 2 (cs.length - n + 1)
    else 0
  | [] => 0

/-- The length of a group of the given opening bracket. -/
def groupOfLength (opening : Char) (s : List Char) : Nat :=
  if s.head? == some opening then groupLength s else 0

/-! ## Rules -/

/-- The nonterminals. The flag of an expression says that a brace behind a path opens a block and no
structure. -/
inductive Rule where
  | statement
  | block
  | blockLike
  | expression (bare : Bool)
  | operand (bare : Bool)
  | atom (bare : Bool)
  | path
  | type
  | bounds
  | pattern
  | typeArguments

abbrev E := Expr Rule

def kw (w : String) : E := Grammar.keyword isNamePart w

def name : E := .token nameLength

def word : E := .token wordLength

def group : E := .token groupLength

def groupOf (opening : Char) : E := .token (groupOfLength opening)

def lifetime : E := .token lifetimeLength

def commaList (item : E) : E := .seq [optional item, .many (.seq [sign ",", optional item])]

def metadata : E := .seq [sign "#", optional (sign "!"), groupOf '[']

def attributes : E := .many metadata

def literal : E := .choice [.token stringLength, .token charLength, .token numberLength]

/-- Text up to one of the given signs. -/
def textBefore (stops : List Char) : E := .token (balancedLength fun c => stops.contains c)

/-! ## Types and patterns -/

def forLifetimes : E := optional (.seq [kw "for", sign "<", .token (balancedLength (· == '>')), sign ">"])

def typeSegment : E :=
  .seq [word,
    optional (.choice [
      .seq [optional (sign "::"), .rule .typeArguments],
      .seq [sign "(", commaList (.rule .type), sign ")", optional (.seq [sign "->", .rule .type])]])]

def typePath : E :=
  .seq [.choice [
      .seq [sign "<", .rule .type, optional (.seq [kw "as", .rule .type]), sign ">"],
      .seq [optional (sign "::"), .absent (.choice [kw "as", kw "where", kw "mut", kw "const"]),
        typeSegment]],
    .many (.seq [sign "::", typeSegment])]

def types : E :=
  .choice [
    .seq [signNot "&" "=", optional (sign "&"), optional lifetime, optional (kw "mut"), .rule .type],
    .seq [sign "*", .choice [kw "const", kw "mut"], .rule .type],
    .seq [sign "[", .rule .type, optional (.seq [sign ";", .rule (.expression false)]), sign "]"],
    .seq [sign "(", commaList (.rule .type), sign ")"],
    signNot "!" "=",
    .seq [forLifetimes, optional (kw "unsafe"),
      optional (.seq [kw "extern", optional (.token stringLength)]), kw "fn", groupOf '(',
      optional (.seq [sign "->", .rule .type])],
    .seq [.choice [kw "impl", kw "dyn"], .rule .bounds],
    .seq [forLifetimes, typePath, optional (.seq [signNot "!" "=", group])]]

def bound : E :=
  .choice [
    lifetime,
    .seq [sign "(", .rule .bounds, sign ")"],
    .seq [optional (sign "?"), optional (sign "~"), optional (kw "const"), forLifetimes, typePath]]

def typeArgument : E :=
  .choice [
    lifetime,
    groupOf '{',
    .seq [optional (sign "-"), literal],
    .seq [.rule .type,
      optional (.choice [.seq [sign "=", .choice [.rule .type, groupOf '{', literal]],
        .seq [sign ":", .rule .bounds]])]]

/-- A pattern without alternatives. -/
def simplePattern : E :=
  .seq [.many (.choice [sign "&", kw "ref", kw "mut", kw "box", lifetime]),
    .choice [
      groupOf '(', groupOf '[',
      .seq [optional (.choice [sign "..=", sign "..."]), optional (sign "-"), literal],
      .seq [.rule .path, optional (signNot "!" "="), optional group],
      .seq [kw "const", groupOf '{'],
      sign ".."],
    optional (.seq [sign "@", .rule .pattern]),
    optional (.seq [.choice [sign "..=", sign "...", sign ".."], optional (sign "-"),
      optional (.choice [literal, .rule .path])])]

def patterns : E :=
  .seq [optional (sign "|"), simplePattern, .many (.seq [signNot "|" "|=", simplePattern])]

/-! ## Expressions -/

def infixOperator : E :=
  .choice [
    .choice ((["&&", "||", "==", "!=", "<<=", ">>=", "<=", ">=", "+=", "-=", "*=", "/=", "%=",
      "^=", "&=", "|=", "<<", ">>"]).map sign),
    signNot "=" ">",
    signNot "-" ">",
    .choice ((["+", "*", "/", "%", "^", "&", "|", "<", ">"]).map sign)]

/-- The part of an expression behind an operand. -/
def operation (bare : Bool) : E :=
  .choice [
    .seq [kw "as", .rule .type],
    .seq [.choice [sign "..=", sign ".."], rangeEnd bare],
    .seq [infixOperator, .rule (.operand bare)]]
where
  rangeEnd (bare : Bool) : E :=
    optional (if bare then .seq [.absent (sign "\x7b"), .rule (.operand bare)]
      else .rule (.operand bare))

def prefixOperator : E :=
  .choice [
    sign "-", signNot "!" "=", sign "*",
    .seq [sign "&", .choice [
      .seq [kw "raw", .choice [kw "const", kw "mut"]],
      optional (kw "mut")]]]

def closure (bare : Bool) : E :=
  .seq [optional (kw "static"), optional (kw "async"), optional (kw "move"),
    .choice [
      sign "||",
      .seq [sign "|", commaList (.seq [attributes, simplePattern,
        optional (.seq [sign ":", .rule .type])]), sign "|"]],
    .choice [
      .seq [sign "->", .rule .type, .rule .block],
      .rule (.expression bare)]]

def label : E := .seq [lifetime, signNot ":" ":"]

def argumentList : E :=
  .seq [sign "(", commaList (.seq [attributes, .rule (.expression false)]), sign ")"]

def structBody : E :=
  .seq [sign "\x7b", commaList (.seq [attributes, .choice [
      .seq [sign "..", optional (.rule (.expression false))],
      .seq [.choice [name, .token digitsLength],
        optional (.seq [signNot ":" ":", .rule (.expression false)])]]]), sign "\x7d"]

/-- An expression in the place of a statement: one that ends with a block ends there, unless a method
is called on it. -/
def statementExpression : E :=
  .choice [
    .seq [.rule .blockLike, .absent (.choice [sign ".", sign "?"])],
    .rule (.expression false)]

def matchArm : E :=
  .seq [attributes, .rule .pattern, optional (.seq [kw "if", .rule (.expression false)]),
    sign "=>", statementExpression, optional (sign ",")]

def blockLikes : E :=
  .choice [
    .seq [kw "if", .rule (.expression true), .rule .block, .many (.seq [kw "else",
      optional (.seq [kw "if", .rule (.expression true)]), .rule .block])],
    .seq [kw "match", .rule (.expression true), sign "\x7b", .many metadata, .many matchArm,
      sign "\x7d"],
    .seq [optional label, .choice [
      .seq [kw "while", .rule (.expression true), .rule .block],
      .seq [kw "loop", .rule .block],
      .seq [kw "for", .rule .pattern, kw "in", .rule (.expression true), .rule .block],
      .rule .block]],
    .seq [.choice [kw "unsafe", kw "const", kw "try"], .rule .block],
    .seq [kw "async", optional (kw "move"), .rule .block]]

/-! ## Items -/

def visibility : E :=
  .seq [kw "pub", optional (.seq [sign "(",
    .choice [kw "crate", kw "self", kw "super", .seq [kw "in", .rule .path]], sign ")"])]

def typeParameters : E :=
  optional (.seq [sign "<", commaList (.seq [attributes, .choice [
    .seq [lifetime, optional (.seq [sign ":", optional (.rule .bounds)])],
    .seq [kw "const", name, sign ":", .rule .type, optional (.seq [sign "=", typeArgument])],
    .seq [name, optional (.seq [sign ":", optional (.rule .bounds)]),
      optional (.seq [sign "=", .rule .type])]]]), sign ">"])

def whereClause : E :=
  optional (.seq [kw "where", commaList (.seq [forLifetimes, .choice [lifetime, .rule .type],
    sign ":", optional (.rule .bounds)])])

def functionHeader : E :=
  .seq [optional visibility,
    .many (.choice [kw "const", kw "async", kw "unsafe", kw "default", kw "safe",
      .seq [kw "extern", optional (.token stringLength)]]),
    kw "fn", .field "name" (.node "identifier" name), typeParameters,
    sign "(", commaList (.seq [attributes, .choice [sign "...",
      .seq [.rule .pattern, optional (.seq [sign ":", .rule .type])]]]), sign ")",
    optional (.seq [sign "->", .rule .type]), whereClause]

def itemBody : E := .seq [sign "\x7b", .many (.choice [.rule .statement, skipped]), sign "\x7d"]
where
  /-- Text in a body that no rule covers. -/
  skipped : E := .seq [.absent (sign "\x7d"), .token fun s => if s.isEmpty then 0 else 1]

def item : E :=
  .choice [
    .node "function_item" (.seq [functionHeader, .rule .block]),
    .seq [functionHeader, sign ";"],
    .seq [optional visibility, .choice [
      .seq [kw "use", textBefore [';'], sign ";"],
      .seq [kw "extern", kw "crate", textBefore [';'], sign ";"],
      .seq [optional (kw "unsafe"), kw "extern", optional (.token stringLength), itemBody],
      .seq [optional (kw "unsafe"), kw "mod", name, .choice [sign ";", itemBody]],
      .seq [.choice [kw "struct", kw "enum", .seq [kw "union", .ahead name]], textBefore ['{', ';'],
        .choice [groupOf '{', sign ";"]],
      .seq [.many (.choice [kw "unsafe", kw "default", kw "auto"]), .choice [kw "impl", kw "trait"],
        textBefore ['{', ';'], .choice [itemBody, sign ";"]],
      .seq [.choice [kw "const", .seq [kw "static", optional (kw "mut")]], name, typeParameters,
        sign ":", .rule .type, optional (.seq [sign "=", .rule (.expression false)]), sign ";"],
      .seq [optional (kw "default"), kw "type", textBefore [';'], sign ";"]]],
    .seq [kw "macro_rules", sign "!", name, group, optional (sign ";")]]

def letStatement : E :=
  .seq [kw "let", .rule .pattern, optional (.seq [sign ":", .rule .type]),
    optional (.seq [sign "=", .rule (.expression false), optional (.seq [kw "else", .rule .block])]),
    sign ";"]

/-- The rules of the grammar. -/
def rules : Rule → E
  | .statement =>
    .choice [
      sign ";",
      .seq [metadata, attributes, optional (.rule .statement)],
      letStatement,
      item,
      .seq [.rule .path, signNot "!" "=", groupOf '{', .absent (.choice [sign ".", sign "?"])],
      .seq [statementExpression, optional (sign ";")]]
  | .block => itemBody
  | .blockLike => blockLikes
  | .expression bare => .seq [.rule (.operand bare), .many (operation bare)]
  | .operand bare =>
    .choice [
      .seq [metadata, .rule (.operand bare)],
      .seq [prefixOperator, .rule (.operand bare)],
      .seq [kw "let", .rule .pattern, sign "=", .rule (.operand bare)],
      .seq [.choice [kw "return", kw "break", kw "continue", kw "yield"], optional lifetime,
        operation.rangeEnd bare, .many (operation bare)],
      .seq [.choice [sign "..=", sign ".."], operation.rangeEnd bare],
      closure bare,
      .postfixed (.rule (.atom bare))
        (.choice [
          .seq [sign ".", .choice [
            .seq [word, optional (.seq [sign "::", .rule .typeArguments])],
            .token nameLength,
            .token digitsLength]],
          .seq [sign "[", .rule (.expression false), sign "]"],
          sign "?"])
        argumentList "call_expression" "function"]
  | .atom bare =>
    .choice [
      literal,
      .rule .blockLike,
      .seq [sign "(", commaList (.seq [attributes, .rule (.expression false)]), sign ")"],
      .seq [sign "[", commaList (.seq [attributes, .rule (.expression false)]),
        optional (.seq [sign ";", .rule (.expression false)]), sign "]"],
      .seq [.rule .path, .choice [
        .seq [signNot "!" "=", group],
        if bare then .seq [] else structBody,
        .seq []]]]
  | .path =>
    .seq [.choice [
        .seq [sign "<", .rule .type, optional (.seq [kw "as", .rule .type]), sign ">"],
        .seq [optional (sign "::"), name]],
      .many (.seq [sign "::", .choice [.rule .typeArguments, name]])]
  | .type => types
  | .bounds => .seq [bound, .many (.seq [sign "+", optional bound])]
  | .pattern => patterns
  | .typeArguments => .seq [sign "<", commaList typeArgument, sign ">"]

def grammar : Grammar Rule := ⟨fun _ => blanks, rules⟩

/-- The syntax tree of a source text. -/
def readSource (source : String) : SyntaxTree := Grammar.readText grammar (.rule .statement) source

end Flowgraph.Rust

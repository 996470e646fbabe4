import Flowgraph.Text.CharClass

/-!
# Tokens of JavaScript and TypeScript

The lengths of names, literals, comments and balanced text at the start of a text. A length of zero
says that there is none.
-/

namespace Flowgraph.Ecmascript

/-! ## Names and blanks -/

def isSpace (c : Char) : Bool := Text.isBlank c || c == '\ufeff' || c == '\u2060' || c == '\u200b'

/-- Beyond ASCII, every character that is no space may stand in a name. -/
def isNamePart (c : Char) : Bool :=
  if c.toNat < 128 then Text.isAsciiAlphanumeric c || c == '_' || c == '$' else !isSpace c

def isNameStart (c : Char) : Bool := isNamePart c && !Text.isAsciiDigit c

/-- Words that are no names. -/
def reserved : List String :=
  ["break", "case", "catch", "class", "const", "continue", "debugger", "default", "delete", "do",
    "else", "enum", "export", "extends", "finally", "for", "function", "if", "import", "in",
    "instanceof", "new", "return", "switch", "throw", "try", "typeof", "var", "void", "while",
    "with"]

mutual

/-- A name may hold escapes such as `\u0061` and `\u{61}`. -/
def wordTail : List Char → Nat
  | '\\' :: 'u' :: '{' :: cs => braceTail cs + 3
  | '\\' :: 'u' :: cs => wordTail cs + 2
  | c :: cs => if isNamePart c then wordTail cs + 1 else 0
  | [] => 0

/-- The rest of an escape in braces, and of the name behind it. -/
def braceTail : List Char → Nat
  | '}' :: cs => wordTail cs + 1
  | _ :: cs => braceTail cs + 1
  | [] => 0

end

def wordLength : List Char → Nat
  | '\\' :: cs => wordTail ('\\' :: cs)
  | c :: cs => if isNameStart c then wordTail cs + 1 else 0
  | [] => 0

def nameLength (s : List Char) : Nat :=
  let n := wordLength s
  if reserved.contains (String.ofList (s.take n)) then 0 else n

def privateNameLength : List Char → Nat
  | '#' :: cs =>
    match wordLength cs with
    | 0 => 0
    | n => n + 1
  | _ => 0

def isLineBreak (c : Char) : Bool := c == '\n' || c == '\r' || c == '\u2028' || c == '\u2029'

def blockCommentLength : List Char → Nat
  | '*' :: '/' :: _ => 2
  | _ :: cs => blockCommentLength cs + 1
  | [] => 0

/-- The length of the comment at the start of the text. The line that names an interpreter counts as
one. -/
def commentLength : List Char → Nat
  | '/' :: '/' :: cs | '#' :: '!' :: cs => (cs.takeWhile (!isLineBreak ·)).length + 2
  | '/' :: '*' :: cs => blockCommentLength cs + 2
  | _ => 0

mutual

/-- White space and comments. -/
def blanks : List Char → Nat
  | '/' :: '/' :: cs | '#' :: '!' :: cs => blanksBehindLine cs + 2
  | '/' :: '*' :: cs => blanksBehindBlock cs + 2
  | c :: cs => if isSpace c then blanks cs + 1 else 0
  | [] => 0

/-- The rest of a comment up to the end of its line, and the blanks behind it. -/
def blanksBehindLine : List Char → Nat
  | c :: cs => (if isLineBreak c then blanks cs else blanksBehindLine cs) + 1
  | [] => 0

/-- The rest of a comment up to its closing sign, and the blanks behind it. -/
def blanksBehindBlock : List Char → Nat
  | '*' :: '/' :: cs => blanks cs + 2
  | _ :: cs => blanksBehindBlock cs + 1
  | [] => 0

end

/-! ## Literals -/

def stringTail (quote : Char) : List Char → Nat
  | '\\' :: _ :: cs => stringTail quote cs + 2
  | c :: cs => if c == quote then 1 else stringTail quote cs + 1
  | [] => 0

def stringLength : List Char → Nat
  | '"' :: cs => stringTail '"' cs + 1
  | '\'' :: cs => stringTail '\'' cs + 1
  | _ => 0

def isDigitOrUnderscore (c : Char) : Bool := Text.isAsciiDigit c || c == '_'

def numberTail (s : List Char) : Nat :=
  let digits (s : List Char) := (s.takeWhile isDigitOrUnderscore).length
  let n :=
    match s with
    | e :: d :: rest =>
      if e == 'e' || e == 'E' then
        if Text.isAsciiDigit d then 2 + digits rest
        else if d == '+' || d == '-' then 2 + digits rest
        else 0
      else 0
    | _ => 0
  if (s.drop n).head? == some 'n' then n + 1 else n

def numberLength (s : List Char) : Nat :=
  match s with
  | '0' :: x :: cs =>
    if ['x', 'X', 'o', 'O', 'b', 'B'].contains x then (cs.takeWhile isNamePart).length + 2
    else decimal s
  | '.' :: d :: cs =>
    if Text.isAsciiDigit d then
      let n := (cs.takeWhile isDigitOrUnderscore).length
      2 + n + numberTail (cs.drop n)
    else 0
  | c :: _ => if Text.isAsciiDigit c then decimal s else 0
  | [] => 0
where
  decimal (s : List Char) : Nat :=
    let n := (s.takeWhile isDigitOrUnderscore).length
    match s.drop n with
    | '.' :: rest =>
      let m := (rest.takeWhile isDigitOrUnderscore).length
      n + 1 + m + numberTail (rest.drop m)
    | rest => n + numberTail rest

/-- The length of a regular expression behind its opening slash. A slash in a class is part of it. -/
def regexTail : Bool → List Char → Option Nat
  | inClass, '\\' :: _ :: cs => (regexTail inClass cs).map (· + 2)
  | inClass, c :: cs =>
    if c == '\n' then none
    else if c == '[' then (regexTail true cs).map (· + 1)
    else if c == ']' then (regexTail false cs).map (· + 1)
    else if c == '/' && !inClass then some (1 + (cs.takeWhile isNamePart).length)
    else (regexTail inClass cs).map (· + 1)
  | _, [] => none

def regexLength : List Char → Nat
  | '/' :: cs =>
    match regexTail false cs with
    | some n => n + 1
    | none => 0
  | _ => 0

/-- The text of a template up to the next substitution or the closing quote. -/
def templateTextLength : List Char → Nat
  | '\\' :: _ :: cs => templateTextLength cs + 2
  | '$' :: '{' :: _ => 0
  | c :: cs => if c == '\x60' then 0 else templateTextLength cs + 1
  | [] => 0

/-- The length of a template with its substitutions, as balanced text. -/
def templateLength (s : List Char) : Nat :=
  if s.head? == some '\x60' then go s.length 0 (s.drop 1) + 1 else 0
where
  go : Nat → Nat → List Char → Nat
    | 0, _, _ => 0
    | _, _, [] => 0
    | n + 1, depth, '\\' :: _ :: cs => go n depth cs + 2
    | n + 1, 0, '$' :: '{' :: cs => go n 1 cs + 2
    | n + 1, 0, c :: cs => if c == '\x60' then 1 else go n 0 cs + 1
    | n + 1, depth + 1, c :: cs =>
      if c == '{' then go n (depth + 2) cs + 1
      else if c == '}' then go n depth cs + 1
      else go n (depth + 1) cs + 1

/-! ## Balanced text -/

/-- The length of a comment, string or template, or of one character. -/
def lexemeLength (s : List Char) : Nat :=
  max 1 (max (commentLength s) (max (stringLength s) (templateLength s)))

/-- The length of the text up to a sign at which `stop` holds, outside brackets and literals. -/
def balancedLength (stop : Char → Bool) (s : List Char) : Nat :=
  go s.length 0 s
where
  go : Nat → Nat → List Char → Nat
    | 0, _, _ => 0
    | _, _, [] => 0
    | n + 1, depth, c :: cs =>
      if depth == 0 && stop c then 0
      else if ['(', '[', '{'].contains c then go n (depth + 1) cs + 1
      else if [')', ']', '}'].contains c then go n (depth - 1) cs + 1
      else
        let m := min (lexemeLength (c :: cs)) (cs.length + 1)
        go n depth ((c :: cs).drop m) + m

/-- The length of a group of the given opening bracket with everything in it. -/
def groupLength (opening : Char) : List Char → Nat
  | c :: cs =>
    if c == opening then
      let n := balancedLength (fun d => d == ')' || d == ']' || d == '}') cs
      n + min 2 (cs.length - n + 1)
    else 0
  | [] => 0

/-- The text of an element up to the next tag or expression. -/
def elementTextLength (s : List Char) : Nat := (s.takeWhile fun c => c != '{' && c != '<').length

/-- A string in a tag, which has no escapes. -/
def attributeStringLength : List Char → Nat
  | c :: cs =>
    if c == '"' || c == '\'' then
      let n := (cs.takeWhile (· != c)).length
      n + min 2 (cs.length - n + 1)
    else 0
  | [] => 0

/-- The name of an element or attribute. -/
def tagNameLength : List Char → Nat
  | c :: cs =>
    if isNameStart c then
      (cs.takeWhile fun d => isNamePart d || d == '-' || d == ':' || d == '.').length + 1
    else 0
  | [] => 0

end Flowgraph.Ecmascript

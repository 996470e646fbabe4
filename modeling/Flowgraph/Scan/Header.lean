import Flowgraph.Language
import Flowgraph.Text.Pattern
import Flowgraph.Call

/-!
# Function headers

The patterns by which the header of a function is recognised on a line, for each language. The first
capture of a pattern is the name of the function.
-/

namespace Flowgraph.Scan

open Pattern

def letterOrUnderscore : Pattern := char fun c => Text.isAsciiLetter c || c == '_'

def letterUnderscoreOrDollar : Pattern := char fun c => Text.isAsciiLetter c || c == '_' || c == '$'

def wordCharOrDollar : Pattern := char fun c => Text.isWordChar c || c == '$'

/-- A name of letters, digits and underscores. -/
def plainName : Pattern := .seq letterOrUnderscore (many wordChar)

/-- A name that may hold dollar signs. -/
def dollarName : Pattern := .seq letterUnderscoreOrDollar (many wordCharOrDollar)

def named (name : Pattern) : Pattern := .capture 1 name

/-- A word with the blanks behind it, or nothing. -/
def optionalWord (w : String) : Pattern := optional (.seq (text w) blanks1)

/-- Text between two brackets that does not hold the closing one. -/
def between (opening closing : String) : Pattern :=
  all [text opening, many (noneOf closing), text closing]

/-- A type annotation up to an equals sign, or nothing. -/
def optionalAnnotation : Pattern := optional (.seq (text ":") (many1 (noneOf "=")))

def goHeader : Pattern :=
  all [.textStart, blanks, text "func", blanks1, optional (.seq (between "(" ")") blanks),
    named plainName, blanks, oneOf "(["]

def kotlinHeader : Pattern :=
  all [.textStart, blanks, many (.seq (many1 (char Text.isAsciiLower)) blanks1), text "fun", blanks1,
    optional (.seq (between "<" ">") blanks),
    optional (.seq (many1 (char fun c => Text.isWordChar c || c == '.')) (text ".")),
    named plainName, blanks, text "("]

def swiftHeader : Pattern :=
  all [.textStart, blanks,
    many (.seq (many1 (char fun c => Text.isWordChar c || c == '@')) blanks1), text "func", blanks1,
    named plainName, blanks, oneOf "<("]

def phpHeader : Pattern :=
  all [.textStart, blanks,
    many (.seq (any (["public", "private", "protected", "static", "final", "abstract"].map text))
      blanks1),
    text "function", blanks1, optional (text "&"), named plainName, blanks, text "("]

def rubyHeader : Pattern :=
  all [.textStart, blanks, text "def", blanks1, optional (text "self."),
    named (.seq plainName (optional (oneOf "?!=")))]

def pythonHeader : Pattern :=
  all [.textStart, blanks, optionalWord "async", text "def", blanks1, named plainName, blanks,
    text "("]

def javaScriptFunctionHeader : Pattern :=
  all [.textStart, blanks, optionalWord "export", optionalWord "default", optionalWord "async",
    text "function", blanks, optional (text "*"), blanks, named dollarName, blanks, oneOf "<("]

def javaScriptValueHeader : Pattern :=
  all [.textStart, blanks, optionalWord "export", any (["const", "let", "var"].map text), blanks1,
    named dollarName, blanks, optionalAnnotation, text "=", blanks, optionalWord "async",
    any [.seq (text "function") .wordBoundary,
      all [between "(" ")", blanks, optionalAnnotation, text "=>"],
      all [dollarName, blanks, text "=>"]]]

def rustHeader : Pattern :=
  all [.textStart, blanks, optional (all [text "pub", optional (between "(" ")"), blanks1]),
    optionalWord "const", optionalWord "async", optionalWord "unsafe",
    optional (all [text "extern", blanks1, between "\"" "\"", blanks1]), text "fn", blanks1,
    named plainName]

/-- The headers of a language, of which the first that occurs on a line counts. -/
def headers : Language → List Pattern
  | .go => [goHeader]
  | .kotlin => [kotlinHeader]
  | .swift => [swiftHeader]
  | .php => [phpHeader]
  | .ruby => [rubyHeader]
  | .python => [pythonHeader]
  | .javaScript | .typeScript | .tsx => [javaScriptFunctionHeader, javaScriptValueHeader]
  | .rust => [rustHeader]
  | .unknown => []

/-- A header found on a line: the name of the function and the text behind the header. -/
structure Header where
  name : String
  matched : List Char
  after : List Char

/-- The header on a line. -/
def header? (l : Language) (line : List Char) : Option Header :=
  (headers l).findSome? fun p =>
    (p.find? line).map fun m => ⟨String.ofList (m.group 1), m.before ++ m.matched, m.after⟩

/-! ## Calls on a line -/

/-- A chain of names that ends before a parenthesis. -/
def callPattern : Pattern :=
  all [many (all [dollarName, blanks, any [text "?.", text ".", text "::"], blanks]), dollarName,
    optional (oneOf "!?"), blanks, text "("]

/-- A string literal that ends on its line. -/
def stringLiteral : Pattern := any ([stringBetween "\"", stringBetween "'", stringBetween "\x60"])
where
  stringBetween (quote : String) : Pattern :=
    all [text quote, many (alt (noneOf (quote ++ "\\")) (.seq (text "\\") (noneOf "\n"))), text quote]

/-- A line with its string literals emptied and without the comment at its end. -/
def stripNoise (l : Language) (line : List Char) : List Char :=
  let line := replaceAll stringLiteral ['"', '"'] line
  match Text.splitOnce l.lineComment.toList line with
  | some (before, _) => before
  | none => line

/-- The calls on a line, in order. -/
def callsIn (line : List Char) : List String :=
  (callPattern.findAll line).filterMap fun m =>
    Call.normalize (String.ofList (Text.dropEndWhile (· == '(') m.matched))

end Flowgraph.Scan

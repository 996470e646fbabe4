import Flowgraph.Scan.Basic
import Flowgraph.Syntax.Vocabularies

/-!
# Extraction

The call graph of a file, by the strategy of its language.
-/

namespace Flowgraph

/-- The one reason for which a text has no call graph. -/
inductive ExtractError where
  | unsupportedLanguage (l : Language)
deriving DecidableEq, Repr

def ExtractError.message : ExtractError → String
  | .unsupportedLanguage l => s!"Unsupported language: {l.name}"

/-- The call graph of a text by the header scan. -/
def scan (l : Language) (source : String) : Except ExtractError CallGraph :=
  if l.isSupported then .ok (Scan.callGraph l source) else .error (.unsupportedLanguage l)

/-- The parsers of the languages that are read as syntax trees. What tree a text has is left to them, above
all where there are errors in the text. That it has one is taken for granted: no language that asks for a
tree is without a parser, and a parser that nothing cuts short ends with a tree on every text. -/
class Parsers where
  python : String → SyntaxTree
  javaScript : String → SyntaxTree
  typeScript : String → SyntaxTree
  tsx : String → SyntaxTree
  rust : String → SyntaxTree

/-- The call graph of a text in a language. There is no scan in place of a parser that is missing and no error
for a text without a tree, since neither occurs. -/
def tryExtract [Parsers] (source : String) (l : Language) : Except ExtractError CallGraph :=
  match l with
  | .python => .ok ((Parsers.python source).callGraph Python.vocabulary)
  | .javaScript => .ok ((Parsers.javaScript source).callGraph Ecmascript.vocabulary)
  | .typeScript => .ok ((Parsers.typeScript source).callGraph Ecmascript.vocabulary)
  | .tsx => .ok ((Parsers.tsx source).callGraph Ecmascript.vocabulary)
  | .rust => .ok ((Parsers.rust source).callGraph Rust.vocabulary)
  | _ => scan l source

/-- The call graph of the file at `path`, empty in an unsupported language. -/
def extract [Parsers] (source path : String) : CallGraph :=
  match tryExtract source (Language.ofPath path) with
  | .ok g => g
  | .error _ => .empty

end Flowgraph

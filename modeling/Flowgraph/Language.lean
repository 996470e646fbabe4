import Flowgraph.Path

/-!
# Languages

The source languages, how each is recognised from a file extension, and how its functions are found.
-/

namespace Flowgraph

/-- The language of a source file. -/
inductive Language where
  | rust
  | python
  | javaScript
  | typeScript
  | tsx
  | go
  | kotlin
  | swift
  | php
  | ruby
  | unknown
deriving DecidableEq, Repr

/-- How the body of a function is delimited when only its header is recognised. -/
inductive BlockLayout where
  | braces
  | indentation
deriving DecidableEq, Repr

/-- How the functions of a file are found. -/
inductive Strategy where
  /-- From a syntax tree. -/
  | syntaxTree
  /-- From header patterns and the layout of blocks. -/
  | headers (layout : BlockLayout)
  | unsupported
deriving DecidableEq, Repr

namespace Language

/-- The lower case of a character, as far as an extension can tell: besides the ASCII letters only the
Kelvin sign has an ASCII letter as its lower case. -/
def lowerExtensionChar (c : Char) : Char :=
  if Text.isAsciiUpper c then Char.ofNat (c.toNat + 32)
  else if c.toNat = 0x212A then 'k'
  else c

/-- The language of files with the given extension, in any case. -/
def ofExtension (ext : String) : Language :=
  match String.ofList (ext.toList.map lowerExtensionChar) with
  | "rs" => .rust
  | "py" | "pyw" => .python
  | "js" | "jsx" | "mjs" | "cjs" => .javaScript
  | "ts" | "mts" | "cts" => .typeScript
  | "tsx" => .tsx
  | "go" => .go
  | "kt" | "kts" => .kotlin
  | "swift" => .swift
  | "php" => .php
  | "rb" => .ruby
  | _ => .unknown

/-- The language of the file at `path`. -/
def ofPath (path : String) : Language :=
  match Path.extension? path with
  | some ext => ofExtension ext
  | none => .unknown

def name : Language → String
  | .rust => "rust"
  | .python => "python"
  | .javaScript => "javascript"
  | .typeScript => "typescript"
  | .tsx => "tsx"
  | .go => "go"
  | .kotlin => "kotlin"
  | .swift => "swift"
  | .php => "php"
  | .ruby => "ruby"
  | .unknown => "unknown"

def strategy : Language → Strategy
  | .rust | .python | .javaScript | .typeScript | .tsx => .syntaxTree
  | .go | .kotlin | .swift | .php => .headers .braces
  | .ruby => .headers .indentation
  | .unknown => .unsupported

/-- The layout by which the header scan delimits bodies, also for languages read as a syntax tree. -/
def blockLayout : Language → BlockLayout
  | .python | .ruby => .indentation
  | _ => .braces

def isSupported (l : Language) : Bool := l != .unknown

/-- Whether the language has a grammar of its own. -/
def hasGrammar (l : Language) : Bool := l.strategy == .syntaxTree

/-- What starts a comment that runs to the end of the line. -/
def lineComment : Language → String
  | .python | .ruby => "#"
  | _ => "//"

def isJavaScriptFamily : Language → Bool
  | .javaScript | .typeScript | .tsx => true
  | _ => false

end Language

end Flowgraph

import Flowgraph.Imports.Basic

/-!
# Imports and exports of JavaScript and TypeScript

The bindings of `import` statements and of `require`, and the names a module exports in either style.
-/

namespace Flowgraph.Imports.Ecmascript

open Pattern

def importPattern : Pattern :=
  all [.lineStart, gap, text "import", gap1, optionalWord "type",
    .capture 1 (.seq (noneOf "'\";") (.rounds false (noneOf "'\";"))), blanks1, text "from", blanks,
    quote, .capture 2 unquoted, quote]

def requirePattern : Pattern :=
  all [any (["const", "let", "var"].map text), blanks1,
    .capture 1 (any [all [text "\x7b", many (noneOf "\x7d"), text "\x7d"], dollarName]), blanks,
    text "=", blanks, text "require(", blanks, quote, .capture 2 unquoted, quote, blanks, text ")"]

/-- A clause without its braces, and what stands between them. -/
def splitBraces (clause : List Char) : List Char × Option (List Char) :=
  match Text.splitOnce ['{'] clause with
  | none => (clause, none)
  | some (before, rest) =>
    match Text.splitOnceLast '}' rest with
    | none => (clause, none)
    | some (inside, after) => (before ++ after, some inside)

def named (specifier name : List Char) : Option ImportBinding :=
  if Call.isIdentifier name then some (binding name [specifier]) else none

/-- The binding of a default or namespace import. -/
def clauseItem (specifier item : List Char) : Option ImportBinding :=
  match Text.trim item with
  | '*' :: rest => named specifier (splitAlias ['a', 's', ' '] rest).2
  | name => named specifier name

/-- The binding of an import between braces. -/
def bracedItem (specifier item : List Char) : Option ImportBinding :=
  let item := Text.dropLeads ['t', 'y', 'p', 'e', ' '] item.length (Text.trim item)
  named specifier (splitAlias [' ', 'a', 's', ' '] item).2

def importBindings (clause specifier : List Char) : List ImportBinding :=
  let (outside, inside) := splitBraces (Text.trim clause)
  (Text.splitOn ',' outside).filterMap (clauseItem specifier) ++
    match inside with
    | some names => (Text.splitOn ',' names).filterMap (bracedItem specifier)
    | none => []

def requireBindings (target specifier : List Char) : List ImportBinding :=
  match target with
  | '{' :: rest =>
    (Text.splitOn ',' (Text.dropEndWhile (· == '}') rest)).filterMap fun item =>
      named specifier (splitAlias [':'] item).2
  | name => [binding name [specifier]]

/-- The bindings of a text: those of `import` statements before those of `require`. -/
def bindings (source : List Char) : List ImportBinding :=
  ((importPattern.findAll source).flatMap fun m => importBindings (m.group 1) (m.group 2)) ++
  (requirePattern.findAll source).flatMap fun m => requireBindings (m.group 1) (m.group 2)

/-! ## Exports -/

def word (w : String) : Pattern := all [.wordBoundary, text w]

/-- Any form of export. A text without one exports everything. -/
def exportSyntax : Pattern :=
  any [all [.lineStart, gap, text "export", .wordBoundary],
    all [word "module.exports", .wordBoundary],
    all [word "exports.", dollarName, blanks, text "="]]

def declarationPattern : Pattern :=
  all [.lineStart, gap, text "export", gap1, optionalWord "default", optionalWord "async",
    any (["function", "const", "let", "var", "class"].map text), gap, optional (text "*"), gap,
    .capture 1 dollarName]

def listPattern : Pattern :=
  all [.lineStart, gap, text "export", gap, optional (.seq (text "type") gap), text "\x7b",
    .capture 1 (many (noneOf "\x7d")), text "\x7d"]

/-- A name alone up to the end of its line. -/
def nameToLineEnd : Pattern := all [.capture 1 dollarName, gap, optional (text ";"), gap, .lineEnd]

def defaultPattern : Pattern :=
  all [.lineStart, gap, text "export", gap1, text "default", gap1, nameToLineEnd]

def objectPattern : Pattern :=
  all [word "module.exports", blanks, text "=", blanks, text "\x7b",
    .capture 1 (many (noneOf "\x7d")), text "\x7d"]

def assignedPattern : Pattern := all [word "module.exports", blanks, text "=", blanks, nameToLineEnd]

def propertyPattern : Pattern :=
  all [.wordBoundary, optional (text "module."), text "exports.", .capture 1 dollarName, blanks,
    text "="]

/-- The exported name of an item of an export list. -/
def listItem (item : List Char) : Option (List Char) :=
  let exported := (splitAlias [' ', 'a', 's', ' '] item).2
  if Call.isIdentifier exported && exported != "default".toList then some exported else none

/-- The key of an entry of an exported object. -/
def objectItem (item : List Char) : Option (List Char) :=
  let key := item.takeWhile fun c => c != ':' && c != '('
  let key := Text.dropLeads "async ".toList key.length (Text.trim key)
  if Call.isIdentifier key then some key else none

/-- The words that start an exported expression and are no name of a function. -/
def expressionWords : List String := ["function", "class", "async", "require"]

/-- The names a text exports, or nothing where it has no export at all. -/
def exportedNames? (source : List Char) : Option (List String) :=
  if exportSyntax.occursIn source then
    let groups (p : Pattern) := (p.findAll source).map (·.group 1)
    let names :=
      groups declarationPattern ++
      ((groups listPattern).flatMap fun list => (Text.splitOn ',' list).filterMap listItem) ++
      groups defaultPattern ++
      ((groups objectPattern).flatMap fun entries => (Text.splitOn ',' entries).filterMap objectItem) ++
      ((groups assignedPattern).filter fun name =>
        !expressionWords.contains (String.ofList name)) ++
      groups propertyPattern
    some (names.map String.ofList)
  else none

end Flowgraph.Imports.Ecmascript

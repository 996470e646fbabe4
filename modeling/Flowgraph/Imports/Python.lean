import Flowgraph.Imports.Basic

/-!
# Imports and exports of Python

The bindings of `import` and `from` statements, and the public functions of a module.
-/

namespace Flowgraph.Imports.Python

open Pattern

def importPattern : Pattern :=
  all [.lineStart, gap, text "import", gap1, .capture 1 (many1 (noneOf "\n#;"))]

def fromPattern : Pattern :=
  all [.lineStart, gap, text "from", gap1,
    .capture 1 (.seq (many (text ".")) (many (char fun c => Text.isWordChar c || c == '.'))), gap1,
    text "import", gap1,
    .capture 2 (any [all [text "(", many (noneOf ")"), text ")"], many1 (noneOf "\n#;")])]

/-- The specifier of a module: one leading dot stands for the directory of the file, and every further
one for the directory above. -/
def specifier (module : List Char) : List Char :=
  let dots := (module.takeWhile (· == '.')).length
  let path := (module.drop dots).map fun c => if c == '.' then '/' else c
  match dots with
  | 0 => path
  | 1 => if path.isEmpty then ['.'] else '.' :: '/' :: path
  | n + 2 =>
    let up := (List.replicate (n + 1) ['.', '.', '/']).flatten
    if path.isEmpty then up.dropLast else up ++ path

/-- The bindings of an item of an `import` statement. The plain import of a dotted module binds its
first part, and counts for its last part too. -/
def importItem (item : List Char) : List ImportBinding :=
  let (module, newName) := splitAlias [' ', 'a', 's', ' '] item
  if module.isEmpty then []
  else if newName != module then [binding newName [specifier module]]
  else
    let root := module.takeWhile (· != '.')
    binding root [root] ::
      match Text.splitOnceLast '.' module with
      | some (_, last) => [binding last [specifier module]]
      | none => []

/-- The binding of an item of a `from` statement: a module below `base`, or a name in it. -/
def fromItem (base item : List Char) : Option ImportBinding :=
  let (name, newName) := splitAlias [' ', 'a', 's', ' '] item
  if name.isEmpty || name == ['*'] then none
  else some (binding newName [if base.isEmpty then name else base ++ '/' :: name, base])

/-- The bindings of a text: those of `import` statements before those of `from` statements. -/
def bindings (source : List Char) : List ImportBinding :=
  ((importPattern.findAll source).flatMap fun m =>
    (Text.splitOn ',' (m.group 1)).flatMap importItem) ++
  (fromPattern.findAll source).flatMap fun m =>
    let names := Text.dropEndWhile (· == ')') ((Text.trim (m.group 2)).dropWhile (· == '('))
    (Text.splitOn ',' names).filterMap (fromItem (specifier (m.group 1)))

/-! ## Exports -/

def topLevelFunction : Pattern :=
  all [.lineStart, optionalWord "async", text "def", gap1, .capture 1 plainName]

/-- The list of the exported names. -/
def exportList : Pattern :=
  all [text "__all__", blanks, optional (.seq (text ":") (many (noneOf "=\n"))), text "=", blanks,
    oneOf "[(", .capture 1 (.rounds false (char fun _ => true)), oneOf "])"]

def quotedName : Pattern := all [quote, .capture 1 unquoted, quote]

/-- The listed names, or without a list the functions at top level that do not start with an
underscore. -/
def exportedNames (source : List Char) : List String :=
  match exportList.find? source with
  | some m => (quotedName.findAll (m.group 1)).map fun q => String.ofList (q.group 1)
  | none =>
    ((topLevelFunction.findAll source).map (·.group 1)).filterMap fun name =>
      if name.head? == some '_' then none else some (String.ofList name)

end Flowgraph.Imports.Python

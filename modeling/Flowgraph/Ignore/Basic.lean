import Flowgraph.Ignore.Glob
import Flowgraph.Text.Slice

/-!
# Ignore rules

The lines of an ignore file. The last rule that matches a path decides on it.
-/

namespace Flowgraph.Ignore

/-- A rule of an ignore file. -/
structure Rule where
  /-- What the rule matches, of paths relative to the directory of the file. -/
  pattern : Pattern
  /-- Whether the rule keeps what it matches. -/
  keeps : Bool
  onlyDirectories : Bool

/-! ## Reading rules -/

/-- The text of a glob that matches at any depth unless it holds a slash, and only below a directory where
it ends in `**`. -/
def globText (anchored : Bool) (line : List Char) : List Char :=
  let anywhere := !anchored && !line.contains '/' && line != ['*', '*']
  let line := if anywhere then ['*', '*', '/'] ++ line else line
  match Text.dropTail? ['/', '*', '*'] line with
  | some _ => line ++ ['/', '*']
  | none => line

/-- The rule of a line behind the mark that it keeps what it matches. -/
def ruleOf? (keeps anchored : Bool) (line : List Char) : Option Rule :=
  let (line, onlyDirectories) :=
    match Text.dropTail? ['/'] line with
    | some rest => ((Text.dropTail? ['\\'] rest).getD rest, true)
    | none => (line, false)
  (Glob.pattern? (globText anchored line)).map fun pattern => ⟨pattern, keeps, onlyDirectories⟩

/-- The rule on a line. A comment or an empty line has none, and neither has one that is no glob. -/
def Rule.ofLine? (line : List Char) : Option Rule :=
  let line := if (Text.dropTail? ['\\', ' '] line).isSome then line else Text.trimEnd line
  match line with
  | [] => none
  | '#' :: _ => none
  | '\\' :: '!' :: rest => ruleOf? false false ('!' :: rest)
  | '\\' :: '#' :: rest => ruleOf? false false ('#' :: rest)
  | '!' :: '/' :: rest => ruleOf? true true rest
  | '!' :: rest => ruleOf? true false rest
  | '/' :: rest => ruleOf? false true rest
  | _ => ruleOf? false false line

/-- The text of a file without the mark of its encoding. -/
def skipMark : List Char → List Char
  | '\ufeff' :: cs => skipMark cs
  | s => s

/-- The rules in the text of a file. -/
def rulesOf (text : String) : List Rule :=
  (Text.lines (skipMark text.toList)).filterMap Rule.ofLine?

/-! ## Deciding -/

/-- What the rules say on a path, if any matches: whether it is ignored. -/
def verdict? (rules : List Rule) (names : List String) (isDirectory : Bool) : Option Bool :=
  let path := Glob.bytes (Text.join ['/'] (names.map String.toList))
  (rules.reverse.find? fun r => (isDirectory || !r.onlyDirectories) && r.pattern.fits path).map
    fun r => !r.keeps

end Flowgraph.Ignore

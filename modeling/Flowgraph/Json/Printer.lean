import Flowgraph.Json.Basic
import Flowgraph.Text.Hex

/-!
# Printing JSON

The text of a value, with each item and entry on a line of its own and two spaces for every level.
-/

namespace Flowgraph.Json

/-! ## Texts -/

/-- A character of a text as it is written between quotes. -/
def escapeChar (c : Char) : List Char :=
  if c == '"' then ['\\', '"']
  else if c == '\\' then ['\\', '\\']
  else if c == '\x08' then ['\\', 'b']
  else if c == '\x0c' then ['\\', 'f']
  else if c == '\n' then ['\\', 'n']
  else if c == '\r' then ['\\', 'r']
  else if c == '\t' then ['\\', 't']
  else if c.toNat < 32 then ['\\', 'u', '0', '0', Text.hexDigit (c.toNat / 16), Text.hexDigit (c.toNat % 16)]
  else [c]

def quote (s : List Char) : List Char := '"' :: (s.flatMap escapeChar ++ ['"'])

def quoteText (s : Option String) : List Char := quote ((s.getD "").toList)

/-! ## Values -/

/-- A line break and the indentation of a level. -/
def newLine (level : Nat) : List Char := '\n' :: List.replicate (2 * level) ' '

mutual

/-- The text of a value that starts on the given level. -/
def print (level : Nat) : Json → List Char
  | .null => "null".toList
  | .bool true => "true".toList
  | .bool false => "false".toList
  | .nat n => (toString n).toList
  | .number => "0".toList
  | .text s => quoteText s
  | .array [] => ['[', ']']
  | .array (item :: items) =>
    '[' :: (newLine (level + 1) ++ print (level + 1) item ++ printItems (level + 1) items ++
      newLine level ++ [']'])
  | .object [] => ['{', '}']
  | .object ((key, value) :: entries) =>
    '{' :: (newLine (level + 1) ++ quoteText key ++ [':', ' '] ++ print (level + 1) value ++
      printEntries (level + 1) entries ++ newLine level ++ ['}'])

/-- The items behind the first one. -/
def printItems (level : Nat) : List Json → List Char
  | [] => []
  | item :: items => ',' :: (newLine level ++ print level item ++ printItems level items)

/-- The entries behind the first one. -/
def printEntries (level : Nat) : List (Option String × Json) → List Char
  | [] => []
  | (key, value) :: entries =>
    ',' :: (newLine level ++ quoteText key ++ [':', ' '] ++ print level value ++
      printEntries level entries)

end

/-- The text of a value. -/
def pretty (j : Json) : String := String.ofList (j.print 0)

end Flowgraph.Json

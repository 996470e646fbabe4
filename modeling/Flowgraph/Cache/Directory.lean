import Flowgraph.Cache.Basic
import Flowgraph.Json.Parser
import Flowgraph.Json.Printer

/-!
# Caches in a directory

A cache that keeps each analysis as a JSON file of its own, named by the key. A file is written under
a temporary name and then renamed, so that an entry is never seen half written.
-/

namespace Flowgraph

inductive CacheError where
  /-- The key cannot be part of a file name. -/
  | invalidKey (key : String)
  /-- The file of the entry is no analysis. -/
  | malformedEntry
deriving DecidableEq, Repr

/-- The text of the files of a directory, by file name. -/
abbrev DirectoryCache := Std.ExtTreeMap String String

namespace DirectoryCache

/-- Whether a key is made of ASCII letters and digits. -/
def isKey (key : String) : Bool := !key.isEmpty && key.toList.all Text.isAsciiAlphanumeric

def entryName (key : String) : String := key ++ ".json"

def temporaryName (key : String) : String := entryName key ++ ".tmp"

/-- Moves a file to another name, in place of any file of that name. -/
def rename (d : DirectoryCache) (source target : String) : DirectoryCache :=
  match d[source]? with
  | some text => (d.erase source).insert target text
  | none => d

/-- The text of an entry. -/
def encode (a : CachedAnalysis) : String := a.toJson.pretty

/-- The analysis in the text of an entry. -/
def decode? (text : String) : Option CachedAnalysis := (Json.parse? text).bind CachedAnalysis.ofJson?

def get (d : DirectoryCache) (key : String) : Except CacheError (Option CachedAnalysis) :=
  if isKey key then
    match d[entryName key]? with
    | none => .ok none
    | some text =>
      match decode? text with
      | some a => .ok (some a)
      | none => .error .malformedEntry
  else .error (.invalidKey key)

def set (d : DirectoryCache) (key : String) (a : CachedAnalysis) : Except CacheError DirectoryCache :=
  if isKey key then
    .ok (rename (d.insert (temporaryName key) (encode a)) (temporaryName key) (entryName key))
  else .error (.invalidKey key)

end DirectoryCache

end Flowgraph

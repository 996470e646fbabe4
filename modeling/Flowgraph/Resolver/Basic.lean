import Flowgraph.Extract
import Flowgraph.Graph.CrossFile
import Flowgraph.Imports.File
import Flowgraph.Resolver.Specifier

/-!
# The resolver

The index of the functions, exports and imports of every file of a workspace, with the calls between
files that follow from it. A call whose module leads to no known file, or whose target does not export
the function, is passed over.
-/

namespace Flowgraph

/-! ## The index -/

/-- A function as the index keeps it. -/
structure IndexedFunction where
  name : String
  calls : List String
  line : Nat
deriving DecidableEq, Repr

/-- What the index keeps of a file. -/
structure IndexEntry where
  functions : List IndexedFunction
  /-- The functions other files may call; all of them where there is no list. -/
  exports : Option (Std.ExtTreeSet String)
  imports : List ImportBinding
deriving DecidableEq

namespace IndexEntry

/-- The entry of a file with the given content and call graph. -/
def ofFile (path content : String) (calls : CallGraph) : Except ImportError IndexEntry :=
  let l := Language.ofPath path
  (Imports.imports l content).map fun imports =>
    ⟨calls.toList.map fun f => ⟨f.name, f.calls, f.startLine⟩, Imports.exports l content, imports⟩

/-- Whether another file may call the function. -/
def exportsFunction (e : IndexEntry) (function : String) : Bool :=
  match e.exports with
  | some names => names.contains function
  | none => true

end IndexEntry

/-- The index, the files an import can lead to, and the calls between files. -/
structure Resolver where
  index : Std.ExtTreeMap String IndexEntry
  knownFiles : Std.ExtTreeSet String
  calls : CrossFileCalls

namespace Resolver

def empty : Resolver := ⟨∅, ∅, ∅⟩

instance : Inhabited Resolver := ⟨empty⟩

@[ext]
theorem ext {r s : Resolver} (hi : r.index = s.index) (hk : r.knownFiles = s.knownFiles)
    (hc : r.calls = s.calls) : r = s := by
  cases r; cases s; simp_all

/-! ## Specifiers -/

/-- The first candidate for a specifier that is a known file. -/
def knownCandidate? (r : Resolver) (specifier : List Char) : Option String :=
  ((candidates specifier).map String.ofList).find? r.knownFiles.contains

/-- The known file that a specifier without a leading dot names: one whose module path ends in it, or
else one whose module path has the same last part. -/
def bareModule? (r : Resolver) (importer : String) (specifier : List Char) : Option String :=
  let specifier := Text.dropEndWhile (· == '/') (specifier.dropWhile (· == '/'))
  if specifier.isEmpty then none
  else
    let others := r.knownFiles.toList.filter (· != importer)
    match others.find? fun file => endsInModule (modulePath file.toList) specifier with
    | some file => some file
    | none => others.find? fun file => lastPart (modulePath file.toList) == lastPart specifier

/-- The known file that a specifier stands for in the file `importer`, which is never that file. -/
def resolveSpecifier (r : Resolver) (importer specifier : String) : Option String :=
  let s := specifier.toList
  if isRelative s then
    match joinRelative (directory importer.toList) s with
    | none => none
    | some joined => (r.knownCandidate? joined).filter (· != importer)
  else
    match (r.knownCandidate? s).filter (· != importer) with
    | some file => some file
    | none => r.bareModule? importer s

/-! ## Calls -/

/-- The file that the name of a module stands for: the first that a specifier bound to it leads to. -/
def resolveModule (r : Resolver) (importer : String) (entry : IndexEntry) (module : String) :
    Option String :=
  ((entry.imports.filter (·.name == module)).flatMap (·.specifiers)).findSome?
    (r.resolveSpecifier importer)

/-- The call of another file that a call of a function stands for. -/
def resolveCall? (r : Resolver) (file : String) (entry : IndexEntry) (f : IndexedFunction)
    (call : String) : Option CrossFileCall :=
  match Call.split call with
  | (none, _) => none
  | (some module, callee) =>
    match r.resolveModule file entry module with
    | none => none
    | some target =>
      match r.index[target]? with
      | none => none
      | some targetEntry =>
        if targetEntry.exportsFunction callee then
          some ⟨⟨file, f.name, f.line⟩, ⟨target, callee, module⟩⟩
        else none

/-- The calls of other files that follow from the index for a file. -/
def derivedCalls (r : Resolver) (file : String) : CrossFileCalls :=
  match r.index[file]? with
  | none => ∅
  | some entry =>
    Std.ExtTreeSet.ofList (entry.functions.flatMap fun f =>
      f.calls.filterMap (r.resolveCall? file entry f)) _

/-- The recorded calls that start in a file. -/
def callsFrom (r : Resolver) (file : String) : CrossFileCalls :=
  r.calls.filter fun c => c.caller.file == file

/-- The recorded calls that lead into a file. -/
def callsInto (r : Resolver) (file : String) : CrossFileCalls :=
  r.calls.filter fun c => c.callee.file == file

/-! ## Updating -/

/-- A resolver with the files of which the calls have changed. -/
structure Change where
  resolver : Resolver
  affected : Std.ExtTreeSet String

/-- Records the calls that follow from the index for a file. -/
def rederive (r : Resolver) (file : String) : Resolver :=
  let fresh := r.derivedCalls file
  if fresh = r.callsFrom file then r
  else { r with calls := (r.calls.filter fun c => c.caller.file != file) ∪ fresh }

/-- Records the calls of a file, and counts it as affected if they have changed. -/
def Change.rederive (c : Change) (file : String) : Change :=
  if c.resolver.derivedCalls file = c.resolver.callsFrom file then c
  else ⟨c.resolver.rederive file, c.affected.insert file⟩

/-- The other files that have an import which leads to the file. -/
def importersOf (r : Resolver) (file : String) : List String :=
  r.index.toList.filterMap fun (importer, entry) =>
    if importer != file && entry.imports.any fun b =>
        b.specifiers.any fun s => r.resolveSpecifier importer s == some file
    then some importer else none

/-- Puts the entry of a file into the index. Where the file is new or its entry has changed, the calls
of its importers are derived again too. -/
def updateEntry (r : Resolver) (path : String) (entry : IndexEntry) : Change :=
  let indexed : Resolver :=
    { r with index := r.index.insert path entry, knownFiles := r.knownFiles.insert path }
  let own := Change.rederive ⟨indexed, ∅⟩ path
  if !r.knownFiles.contains path || r.index[path]? != some entry then
    (own.resolver.importersOf path).foldl Change.rederive own
  else own

/-- Indexes a file with the given content and call graph. -/
def updateWith (r : Resolver) (content path : String) (calls : CallGraph) :
    Except ImportError Change :=
  (IndexEntry.ofFile path content calls).map (r.updateEntry path)

/-- Indexes a file with the given content. -/
def update [Parsers] (r : Resolver) (content path : String) : Except ImportError Change :=
  r.updateWith content path (extract content path)

/-- Makes a file known without indexing it. -/
def registerFile (r : Resolver) (path : String) : Resolver :=
  { r with knownFiles := r.knownFiles.insert path }

/-- Forgets a file. The affected files are the others that called it. -/
def removeFile (r : Resolver) (path : String) : Change where
  resolver := {
    index := r.index.erase path
    knownFiles := r.knownFiles.erase path
    calls := r.calls.filter fun c => c.caller.file != path && c.callee.file != path }
  affected := Std.ExtTreeSet.ofList
    ((r.calls.toList.filter fun c => c.caller.file != path && c.callee.file == path).map
      (·.caller.file)) _

/-- Derives the calls of every file again. -/
def resolveAll (r : Resolver) : Change := r.index.keys.foldl Change.rederive ⟨r, ∅⟩

end Resolver

end Flowgraph

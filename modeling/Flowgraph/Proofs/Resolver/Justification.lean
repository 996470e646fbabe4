import Flowgraph.Proofs.Resolver.Confluence
import Flowgraph.Proofs.Resolver.Extension
import Flowgraph.Syntax.Parsers

/-!
# Calls that the index justifies

Recorded calls are stored and not looked up anew, and forgetting a file only drops calls. What is
recorded is still justified by the index at any time, although calls that would follow from it may be
missing until all are derived again.
-/

namespace Flowgraph

namespace Resolver

/-! ## Justified calls -/

/-- The specifiers that are bound to a name, in the order in which they are tried. -/
def specifiersOf (entry : IndexEntry) (module : String) : List String :=
  (entry.imports.filter (·.name == module)).flatMap (·.specifiers)

/-- A specifier of a list leads to a file, and none before it leads anywhere. -/
def LeadsFirst (r : Resolver) (importer : String) (specifiers : List String) (target : String) : Prop :=
  ∃ before specifier after, specifiers = before ++ specifier :: after ∧
    (∀ s ∈ before, r.resolveSpecifier importer s = none) ∧
    r.resolveSpecifier importer specifier = some target

/-- What a call between files rests on: a function of the calling file that contains it, an import of
this file that leads to the called file, and the exports of that file. -/
structure Justifies (r : Resolver) (c : CrossFileCall) : Prop where
  caller : ∃ entry, r.index[c.caller.file]? = some entry ∧
    (∃ f ∈ entry.functions, f.name = c.caller.function ∧ f.line = c.caller.line ∧
      c.callee.module ++ "." ++ c.callee.function ∈ f.calls) ∧
    r.LeadsFirst c.caller.file (specifiersOf entry c.callee.module) c.callee.file
  callee : ∃ entry, r.index[c.callee.file]? = some entry ∧
    ∀ exports, entry.exports = some exports → c.callee.function ∈ exports
  ne : c.callee.file ≠ c.caller.file
  /-- The module is all that stands before the first dot of the call. -/
  module_plain : '.' ∉ c.callee.module.toList

variable {r s : Resolver} {path file importer module target : String} {entry : IndexEntry}
  {c : CrossFileCall}

theorem resolveModule_eq_some_iff :
    r.resolveModule importer entry module = some target ↔
      r.LeadsFirst importer (specifiersOf entry module) target := by
  rw [resolveModule, List.findSome?_eq_some_iff]
  constructor
  · rintro ⟨before, specifier, after, heq, hfound, hbefore⟩
    exact ⟨before, specifier, after, heq, hbefore, hfound⟩
  · rintro ⟨before, specifier, after, heq, hbefore, hfound⟩
    exact ⟨before, specifier, after, heq, hfound, hbefore⟩

theorem exportsFunction_iff {function : String} :
    entry.exportsFunction function = true ↔
      ∀ exports, entry.exports = some exports → function ∈ exports := by
  unfold IndexEntry.exportsFunction
  cases entry.exports <;> simp

/-- The justified calls are those that are derived from the index. -/
theorem mem_derivedCalls_iff_justifies : c ∈ r.derivedCalls c.caller.file ↔ r.Justifies c := by
  rw [mem_derivedCalls]
  constructor
  · rintro ⟨entry, hentry, f, hf, call, hcall, hresolve⟩
    have hne : c.callee.file ≠ c.caller.file := callee_file_ne_of_mem_derivedCalls
      (mem_derivedCalls.mpr ⟨entry, hentry, f, hf, call, hcall, hresolve⟩)
    obtain ⟨module, callee, target, hsplit, hmodule, ⟨targetEntry, htarget, hexports⟩, hc⟩ :=
      resolveCall?_eq_some.mp hresolve
    obtain ⟨rfl, hplain⟩ := Call.split_eq_some_iff.mp hsplit
    rw [hc] at hne hentry ⊢
    exact ⟨⟨entry, hentry, ⟨f, hf, rfl, rfl, hcall⟩, resolveModule_eq_some_iff.mp hmodule⟩,
      ⟨targetEntry, htarget, exportsFunction_iff.mp hexports⟩, hne, hplain⟩
  · rintro ⟨⟨entry, hentry, ⟨f, hf, hname, hline, hcall⟩, hleads⟩,
      ⟨targetEntry, htarget, hexports⟩, -, hplain⟩
    refine ⟨entry, hentry, f, hf, _, hcall, resolveCall?_eq_some.mpr ?_⟩
    refine ⟨c.callee.module, c.callee.function, c.callee.file, Call.split_eq_some_iff.mpr ⟨rfl, hplain⟩,
      resolveModule_eq_some_iff.mpr hleads,
      ⟨targetEntry, htarget, exportsFunction_iff.mpr hexports⟩, ?_⟩
    rw [hname, hline]

/-! ## Grounded resolvers -/

/-- Every recorded call follows from the index, and every file of the index is known. -/
structure Grounded (r : Resolver) : Prop where
  derived : ∀ file, ∀ c ∈ r.callsFrom file, c ∈ r.derivedCalls file
  known : ∀ file entry, r.index[file]? = some entry → file ∈ r.knownFiles

theorem grounded_empty : empty.Grounded where
  derived file c hc := by simp [mem_callsFrom, empty] at hc
  known file entry hentry := by simp [empty] at hentry

namespace Grounded

theorem updateEntry (hr : r.Grounded) (path : String) (entry : IndexEntry) :
    (r.updateEntry path entry).resolver.Grounded where
  derived file c hc := by
    have hderived : (r.updateEntry path entry).resolver.derivedCalls file =
        (r.withEntry path entry).derivedCalls file :=
      derivedCalls_congr (index_updateEntry r path entry) (knownFiles_updateEntry r path entry)
    rw [callsFrom_updateEntry] at hc
    rw [hderived]
    -- The calls of a file that is not derived again are those it had, and would be derived the same.
    split at hc
    next => exact hc
    next hfile =>
      rw [derivedCalls_withEntry hfile]
      exact hr.derived file c hc
  known file entry' hentry := by
    rw [index_updateEntry, Std.ExtTreeMap.getElem?_insert] at hentry
    rw [knownFiles_updateEntry, Std.ExtTreeSet.mem_insert]
    split at hentry
    next heq => exact .inl heq
    next => exact .inr (hr.known file entry' hentry)

theorem extends_removeFile (r : Resolver) (path : String) : (r.removeFile path).resolver.Extends r := by
  constructor
  · intro file hfile
    exact Std.ExtTreeSet.mem_of_mem_erase hfile
  · intro file hfile
    have hne : compare path file ≠ .eq := (Std.ExtTreeSet.mem_erase.mp hfile).1
    simp only [removeFile, Std.ExtTreeMap.getElem?_erase, hne, if_false]

/-- A recorded call that leads elsewhere is still derived after a file has been forgotten: the
specifiers before the one that it rests on have led nowhere, and lead nowhere without the file. -/
theorem removeFile (hr : r.Grounded) (path : String) : (r.removeFile path).resolver.Grounded where
  derived file c hc := by
    obtain ⟨hold, hfile, hcallee⟩ := mem_callsFrom_removeFile.mp hc
    have hderived : c ∈ r.derivedCalls file := hr.derived file c hold
    have hstays {other : String} (hne : other ≠ path) (hknown : other ∈ r.knownFiles) :
        other ∈ (r.removeFile path).resolver.knownFiles := by
      simp only [Resolver.removeFile, Std.ExtTreeSet.mem_erase]
      exact ⟨fun heq => hne (Std.LawfulEqCmp.eq_of_compare heq).symm, hknown⟩
    obtain ⟨entry, hentry, -⟩ := mem_derivedCalls.mp hderived
    obtain rfl := caller_file_of_mem_derivedCalls hderived
    obtain ⟨targetEntry, htarget, -⟩ := (mem_derivedCalls_iff_justifies.mp hderived).callee
    exact (extends_removeFile r path).mem_derivedCalls (hstays hfile (hr.known _ entry hentry))
      hderived (hstays hcallee (hr.known _ targetEntry htarget))
  known file entry hentry := by
    simp only [Resolver.removeFile, Std.ExtTreeMap.getElem?_erase] at hentry
    split at hentry
    next => cases hentry
    next hne =>
      exact Std.ExtTreeSet.mem_erase.mpr ⟨hne, hr.known file entry hentry⟩

/-- With all calls derived again, exactly the justified ones are recorded. -/
theorem mem_calls_resolveAll (hr : r.Grounded) : c ∈ r.resolveAll.resolver.calls ↔ r.Justifies c := by
  have hcalls : c ∈ r.resolveAll.resolver.calls ↔
      c ∈ r.resolveAll.resolver.callsFrom c.caller.file := by
    rw [mem_callsFrom, and_iff_left rfl]
  rw [hcalls, (rederives_resolveAll r).callsFrom_eq, ← mem_derivedCalls_iff_justifies]
  split
  next => rfl
  next hkeys =>
    -- A file outside the index has no calls, neither recorded nor derived.
    refine ⟨hr.derived _ c, fun hc => absurd ?_ hkeys⟩
    obtain ⟨entry, hentry, -⟩ := mem_derivedCalls.mp hc
    exact Std.ExtTreeMap.mem_keys.mpr (OrderedMap.mem_of_getElem? hentry)

theorem resolveAll (hr : r.Grounded) : r.resolveAll.resolver.Grounded := by
  have hindex := index_resolveAll r
  have hknown := knownFiles_resolveAll r
  constructor
  · intro file c hc
    obtain ⟨hcalls, rfl⟩ := mem_callsFrom.mp hc
    rw [derivedCalls_congr hindex hknown]
    exact mem_derivedCalls_iff_justifies.mpr (hr.mem_calls_resolveAll.mp hcalls)
  · intro file entry hentry
    rw [hindex] at hentry
    rw [hknown]
    exact hr.known file entry hentry

end Grounded

/-! ## Operations -/

/-- What can be done to a resolver. -/
inductive Operation where
  | update (step : Step)
  | remove (path : String)
  | resolveAll

section Parsers

variable [Parsers]

/-- The resolver after an operation, which fails only where imports cannot be read. -/
def Operation.apply (r : Resolver) : Operation → Except ImportError Resolver
  | update step => step.apply r
  | remove path => .ok (r.removeFile path).resolver
  | resolveAll => .ok r.resolveAll.resolver

/-- A new resolver after some operations, one after another. -/
def operate (operations : List Operation) : Except ImportError Resolver :=
  operations.foldlM Operation.apply empty

theorem Grounded.apply {operation : Operation} (h : operation.apply r = .ok s) (hr : r.Grounded) :
    s.Grounded := by
  cases operation with
  | update step =>
    obtain ⟨entry, -, rfl⟩ := Step.apply_eq_ok.mp h
    exact hr.updateEntry step.path entry
  | remove path =>
    obtain rfl := Except.ok.inj h
    exact hr.removeFile path
  | resolveAll =>
    obtain rfl := Except.ok.inj h
    exact hr.resolveAll

/-- Whatever has been done to a resolver, every call that it records is justified. Calls that would be
justified may be missing after a file has been forgotten, and are on record once all calls have been
derived again. -/
theorem justifies_of_operate {operations : List Operation} (h : operate operations = .ok r) :
    (∀ c ∈ r.calls, r.Justifies c) ∧ ∀ c, c ∈ r.resolveAll.resolver.calls ↔ r.Justifies c := by
  have hr : r.Grounded :=
    Outcome.foldlM_preserves (fun _ _ _ happly hs => hs.apply happly) grounded_empty h
  refine ⟨fun c hc => ?_, fun c => hr.mem_calls_resolveAll⟩
  exact mem_derivedCalls_iff_justifies.mp (hr.derived _ c (mem_callsFrom.mpr ⟨hc, rfl⟩))

end Parsers

/-- One of two called files is forgotten. The call of the other one stays on record, and the call that
would now lead to another candidate comes back only with `resolveAll`. -/
theorem justifies_of_operate_forgotten :
    let operations : List Operation :=
      [.update (.updateWith "import b\nimport l" "a.py" (.ofList [⟨"f", 3, 4, ["b.g", "l.h"]⟩])),
        .update (.updateWith "def g():" "b.py" (.ofList [⟨"g", 1, 2, []⟩])),
        .update (.updateWith "def h():" "l/__init__.py" (.ofList [⟨"h", 1, 2, []⟩])),
        .update (.updateWith "def h():" "l.py" (.ofList [⟨"h", 1, 2, []⟩])), .remove "l.py"]
    ∃ r, operate operations = .ok r ∧
      (r.calls.toList = [⟨⟨"a.py", "f", 3⟩, ⟨"b.py", "g", "b"⟩⟩] ∧
        r.resolveAll.resolver.calls.toList = [⟨⟨"a.py", "f", 3⟩, ⟨"b.py", "g", "b"⟩⟩,
          ⟨⟨"a.py", "f", 3⟩, ⟨"l/__init__.py", "h", "l"⟩⟩]) ∧
      (∀ c ∈ r.calls, r.Justifies c) ∧ ∀ c, c ∈ r.resolveAll.resolver.calls ↔ r.Justifies c := by
  intro operations
  have hcalls : (operate operations).toOption.map
      (fun r => (r.calls.toList, r.resolveAll.resolver.calls.toList)) =
        some ([⟨⟨"a.py", "f", 3⟩, ⟨"b.py", "g", "b"⟩⟩], [⟨⟨"a.py", "f", 3⟩, ⟨"b.py", "g", "b"⟩⟩,
          ⟨⟨"a.py", "f", 3⟩, ⟨"l/__init__.py", "h", "l"⟩⟩]) := by decide +kernel
  obtain ⟨r, hr, hlists⟩ := Outcome.exists_of_map_toOption hcalls
  exact ⟨r, hr, Prod.ext_iff.mp hlists, justifies_of_operate hr⟩

end Resolver

end Flowgraph

import Flowgraph.Proofs.Resolver.Justification
import Flowgraph.Syntax.Parsers

/-!
# Forgetting a file that has just been added

A file that is added can draw calls to itself that led to other files before. When it is forgotten, these
calls are dropped and not led back, and everything else is as it was.
-/

namespace Flowgraph

namespace Resolver

variable {r s : Resolver} {path : String} {entry : IndexEntry} {c : CrossFileCall} {steps : List Step}
  {step : Step}

/-! ## Diverted calls -/

/-- Whether the module of a call leads to `path` in the calling file. -/
def Diverts (r : Resolver) (path : String) (c : CrossFileCall) : Prop :=
  ∃ entry, r.index[c.caller.file]? = some entry ∧
    r.LeadsFirst c.caller.file (specifiersOf entry c.callee.module) path

namespace Justifies

theorem congr (hc : r.Justifies c) (hindex : s.index = r.index) (hknown : s.knownFiles = r.knownFiles) :
    s.Justifies c := by
  rw [← mem_derivedCalls_iff_justifies] at hc ⊢
  rwa [derivedCalls_congr hindex hknown]

/-- The module of a justified call leads to the file that the call leads to. -/
theorem diverts_iff (hc : r.Justifies c) : r.Diverts path c ↔ c.callee.file = path := by
  obtain ⟨entry, hentry, -, hleads⟩ := hc.caller
  rw [← resolveModule_eq_some_iff] at hleads
  unfold Diverts
  simp only [hentry, Option.some.injEq, exists_eq_left', ← resolveModule_eq_some_iff, hleads]

/-- With one more file in the index, a call leads where it led before unless it is diverted. -/
theorem insert (hc : r.Justifies c) (hindex : s.index = r.index.insert path entry)
    (hknown : s.knownFiles = r.knownFiles.insert path) (hcaller : c.caller.file ≠ path)
    (hcallee : c.callee.file ≠ path) (hstays : ¬ s.Diverts path c) : s.Justifies c := by
  have hget {file : String} (hne : file ≠ path) : s.index[file]? = r.index[file]? := by
    rw [hindex, Std.ExtTreeMap.getElem?_insert, if_neg]
    rw [Std.LawfulEqCmp.compare_eq_iff_eq]
    exact hne.symm
  obtain ⟨callerEntry, hentry, hfunction, hleads⟩ := hc.caller
  obtain ⟨calleeEntry, hentry', hexports⟩ := hc.callee
  rw [← hget hcaller] at hentry
  rw [← hget hcallee] at hentry'
  -- The module can only have come to lead to the further file, and then the call is diverted.
  have hmodule : s.resolveModule c.caller.file callerEntry c.callee.module ≠ some path := by
    intro hpath
    exact hstays ⟨callerEntry, hentry, resolveModule_eq_some_iff.mp hpath⟩
  have hsame := (resolveModule_insert hknown hcaller.symm callerEntry c.callee.module).eq_of_ne hmodule
  rw [← resolveModule_eq_some_iff, ← hsame, resolveModule_eq_some_iff] at hleads
  exact ⟨⟨callerEntry, hentry, hfunction, hleads⟩, ⟨calleeEntry, hentry', hexports⟩, hc.ne,
    hc.module_plain⟩

end Justifies

/-! ## Adding and forgetting -/

theorem index_removeFile_updateEntry (hnew : r.index[path]? = none) (entry : IndexEntry) :
    ((r.updateEntry path entry).resolver.removeFile path).resolver.index = r.index := by
  refine Std.ExtTreeMap.ext_getElem? fun file => ?_
  simp only [removeFile, index_updateEntry, Std.ExtTreeMap.getElem?_erase, Std.ExtTreeMap.getElem?_insert,
    Std.LawfulEqCmp.compare_eq_iff_eq]
  split
  next heq => rw [← heq, hnew]
  next => rfl

theorem knownFiles_removeFile_updateEntry (hnew : path ∉ r.knownFiles) (entry : IndexEntry) :
    ((r.updateEntry path entry).resolver.removeFile path).resolver.knownFiles = r.knownFiles := by
  refine Std.ExtTreeSet.ext_mem fun file => ?_
  simp only [removeFile, knownFiles_updateEntry, Std.ExtTreeSet.mem_erase, Std.ExtTreeSet.mem_insert,
    ne_eq, Std.LawfulEqCmp.compare_eq_iff_eq]
  constructor
  · rintro ⟨hne, heq | hfile⟩
    · exact absurd heq hne
    · exact hfile
  · intro hfile
    refine ⟨?_, .inr hfile⟩
    rintro rfl
    exact hnew hfile

/-- A settled resolver records the justified calls. -/
theorem Settled.mem_calls (hr : r.Settled) : c ∈ r.calls ↔ r.Justifies c := by
  rw [← mem_derivedCalls_iff_justifies, ← hr c.caller.file, mem_callsFrom, and_iff_left rfl]

theorem Grounded.getElem?_index_eq_none (hr : r.Grounded) (hnew : path ∉ r.knownFiles) :
    r.index[path]? = none := by
  cases hentry : r.index[path]? with
  | none => rfl
  | some entry => exact absurd (hr.known path entry hentry) hnew

/-- Adding a file and forgetting it loses the calls that the file has diverted, and no others. -/
theorem Settled.mem_calls_removeFile_updateEntry (hr : r.Settled) (hground : r.Grounded)
    (hnew : path ∉ r.knownFiles) (entry : IndexEntry) (c : CrossFileCall) :
    c ∈ ((r.updateEntry path entry).resolver.removeFile path).resolver.calls ↔
      c ∈ r.calls ∧ ¬ (r.updateEntry path entry).resolver.Diverts path c := by
  have hs := hr.updateEntry path entry
  have hindex := index_updateEntry r path entry
  have hknown := knownFiles_updateEntry r path entry
  have hstays : c ∈ ((r.updateEntry path entry).resolver.removeFile path).resolver.calls ↔
      c ∈ (r.updateEntry path entry).resolver.calls ∧ c.caller.file ≠ path ∧ c.callee.file ≠ path := by
    simp only [removeFile, OrderedSet.mem_filter, Bool.and_eq_true, bne_iff_ne]
  rw [hstays, hs.mem_calls, hr.mem_calls]
  constructor
  · rintro ⟨hc, hcaller, hcallee⟩
    have hforgotten := (hground.updateEntry path entry).removeFile path
    have hrecorded := mem_callsFrom.mpr ⟨hstays.mpr ⟨hs.mem_calls.mpr hc, hcaller, hcallee⟩, rfl⟩
    have hjustified := mem_derivedCalls_iff_justifies.mp (hforgotten.derived c.caller.file c hrecorded)
    refine ⟨hjustified.congr ?_ ?_, mt hc.diverts_iff.mp hcallee⟩
    · exact (index_removeFile_updateEntry (hground.getElem?_index_eq_none hnew) entry).symm
    · exact (knownFiles_removeFile_updateEntry hnew entry).symm
  · rintro ⟨hc, hdiverts⟩
    -- Both files of the call are in the index, and so neither is the one that is new.
    obtain ⟨callerEntry, hentry, -⟩ := hc.caller
    obtain ⟨calleeEntry, hentry', -⟩ := hc.callee
    have hcaller : c.caller.file ≠ path := fun heq => hnew (heq ▸ hground.known _ _ hentry)
    have hcallee : c.callee.file ≠ path := fun heq => hnew (heq ▸ hground.known _ _ hentry')
    exact ⟨hc.insert hindex hknown hcaller hcallee hdiverts, hcaller, hcallee⟩

theorem grounded_of_run [Parsers] (h : run steps = .ok r) : r.Grounded := by
  refine Outcome.foldlM_preserves (fun s t step happly hs => ?_) grounded_empty h
  obtain ⟨entry, -, rfl⟩ := Step.apply_eq_ok.mp happly
  exact hs.updateEntry step.path entry

/-- Forgetting a file that has just been added gives back the index and the known files, and of the calls
those that the file has not diverted. The resolver is the earlier one exactly where no call has been
diverted, and in any case once all calls have been derived again. -/
theorem removeFile_of_apply [Parsers] (hrun : run steps = .ok r) (hnew : step.path ∉ r.knownFiles)
    (happly : step.apply r = .ok s) :
    (s.removeFile step.path).resolver.index = r.index ∧
      (s.removeFile step.path).resolver.knownFiles = r.knownFiles ∧
      (∀ c, c ∈ (s.removeFile step.path).resolver.calls ↔ c ∈ r.calls ∧ ¬ s.Diverts step.path c) ∧
      ((s.removeFile step.path).resolver = r ↔ ∀ c ∈ r.calls, ¬ s.Diverts step.path c) ∧
      (s.removeFile step.path).resolver.resolveAll.resolver = r := by
  have hsettled := (settled_empty.updated hrun).settled
  have hground := grounded_of_run hrun
  obtain ⟨entry, -, rfl⟩ := Step.apply_eq_ok.mp happly
  have hindex := index_removeFile_updateEntry (hground.getElem?_index_eq_none hnew) entry
  have hknown := knownFiles_removeFile_updateEntry hnew entry
  have hcalls := hsettled.mem_calls_removeFile_updateEntry hground hnew entry
  refine ⟨hindex, hknown, hcalls, ?_, ?_⟩
  · constructor
    · intro heq c hc
      rw [← heq] at hc
      exact ((hcalls c).mp hc).2
    · intro hstays
      refine Resolver.ext hindex hknown (Std.ExtTreeSet.ext_mem fun c => ?_)
      rw [hcalls, and_iff_left_iff_imp]
      exact hstays c
  -- All calls derived anew depend on the index and the known files alone, which are as they were.
  · have hforgotten := (hground.updateEntry step.path entry).removeFile step.path
    refine Resolver.ext ((index_resolveAll _).trans hindex) ((knownFiles_resolveAll _).trans hknown)
      (Std.ExtTreeSet.ext_mem fun c => ?_)
    rw [hforgotten.mem_calls_resolveAll, hsettled.mem_calls]
    constructor
    · intro hc
      exact hc.congr hindex.symm hknown.symm
    · intro hc
      exact hc.congr hindex hknown

/-- The calls before and after a file is added and forgotten, by computation. -/
theorem exists_of_toOption_apply [Parsers] (steps : List Step) (step : Step)
    (before after : List CrossFileCall)
    (h : ((run steps).bind fun r => (step.apply r).map fun s => (r, s)).toOption.map
      (fun p => (p.1.knownFiles.contains step.path, p.1.calls.toList,
        (p.2.removeFile step.path).resolver.calls.toList)) = some (false, before, after)) :
    ∃ r s, run steps = .ok r ∧ step.path ∉ r.knownFiles ∧ step.apply r = .ok s ∧
      r.calls.toList = before ∧ (s.removeFile step.path).resolver.calls.toList = after := by
  obtain ⟨r, s, hrun, happly, heq⟩ := Outcome.exists_of_bind_pair h
  simp only [Prod.mk.injEq] at heq
  obtain ⟨hknown, hbefore, hafter⟩ := heq
  refine ⟨r, s, hrun, ?_, happly, hbefore, hafter⟩
  rw [← Std.ExtTreeSet.contains_iff_mem, hknown]
  exact Bool.false_ne_true

/-- Of two calls, one is diverted to the file that is added. It is lost when the file is forgotten, and
comes back when all calls are derived again. -/
theorem removeFile_of_apply_of_diverted :
    let steps : List Step :=
      [.updateWith "import b\nimport l" "a.py" (.ofList [⟨"f", 3, 4, ["b.g", "l.h"]⟩]),
        .updateWith "def g():" "b.py" (.ofList [⟨"g", 1, 2, []⟩]),
        .updateWith "def h():" "l/__init__.py" (.ofList [⟨"h", 1, 2, []⟩])]
    let step : Step := .updateWith "def h():" "l.py" (.ofList [⟨"h", 1, 2, []⟩])
    let kept : CrossFileCall := ⟨⟨"a.py", "f", 3⟩, ⟨"b.py", "g", "b"⟩⟩
    let lost : CrossFileCall := ⟨⟨"a.py", "f", 3⟩, ⟨"l/__init__.py", "h", "l"⟩⟩
    ∃ r s, run steps = .ok r ∧ step.path ∉ r.knownFiles ∧ step.apply r = .ok s ∧
      r.calls.toList = [kept, lost] ∧ s.Diverts step.path lost ∧
      (s.removeFile step.path).resolver.calls.toList = [kept] ∧
      (s.removeFile step.path).resolver.index = r.index ∧
      (s.removeFile step.path).resolver.resolveAll.resolver = r := by
  intro steps step kept lost
  obtain ⟨r, s, hrun, hnew, happly, hbefore, hafter⟩ :=
    exists_of_toOption_apply steps step [kept, lost] [kept] (by decide +kernel)
  obtain ⟨hindex, -, hmem, -, hall⟩ := removeFile_of_apply hrun hnew happly
  have hlost : lost ∉ (s.removeFile step.path).resolver.calls := by
    rw [← Std.ExtTreeSet.mem_toList, hafter]
    decide
  have hrecorded : lost ∈ r.calls := by
    rw [← Std.ExtTreeSet.mem_toList, hbefore]
    decide
  rw [hmem, not_and_not_right] at hlost
  exact ⟨r, s, hrun, hnew, happly, hbefore, hlost hrecorded, hafter, hindex, hall⟩

set_option maxRecDepth 100000 in
/-- A call can be lost when a file is added and forgotten: it is dropped with the file that it has been
diverted to, and not led back to the one that it led to before. -/
theorem exists_call_lost_after_adding :
    ∃ (steps : List Step) (content path : String) (r s : Resolver), run steps = .ok r ∧
      path ∉ r.knownFiles ∧ (Step.update content path).apply r = .ok s ∧
      r.calls.toList = [⟨⟨"a.py", "f", 2⟩, ⟨"l/__init__.py", "h", "l"⟩⟩] ∧
      (s.removeFile path).resolver.calls.toList = [] := by
  let steps : List Step :=
    [.update "def h(): pass\n" "l/__init__.py", .update "import l\ndef f():\n    l.h()\n" "a.py"]
  let step : Step := .update "def h(): pass\n" "l.py"
  obtain ⟨r, s, hrun, hnew, happly, hbefore, hafter⟩ :=
    exists_of_toOption_apply steps step [⟨⟨"a.py", "f", 2⟩, ⟨"l/__init__.py", "h", "l"⟩⟩] []
      (by decide +kernel)
  exact ⟨steps, "def h(): pass\n", "l.py", r, s, hrun, hnew, happly, hbefore, hafter⟩

end Resolver

end Flowgraph

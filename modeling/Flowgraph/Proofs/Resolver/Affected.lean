import Flowgraph.Proofs.Resolver.Confluence
import Flowgraph.Syntax.Parsers

/-!
# Affected files

The files that an operation of the resolver reports are those of which the recorded calls have changed.
Nothing is asked of the resolver: it can record calls that no longer follow from its index, and lack some
that do.
-/

namespace Flowgraph

namespace Resolver

/-! ## Updating again -/

/-- After an update, the file records the calls that follow from the index. -/
theorem callsFrom_updateEntry_self (r : Resolver) (path : String) (entry : IndexEntry) :
    (r.updateEntry path entry).resolver.callsFrom path =
      (r.updateEntry path entry).resolver.derivedCalls path := by
  have hself : path ∈ r.rederivedFiles path entry := by
    unfold rederivedFiles
    split
    · exact List.mem_cons_self
    · exact List.mem_singleton_self path
  have hindex := index_updateEntry r path entry
  have hknown := knownFiles_updateEntry r path entry
  rw [callsFrom_updateEntry, if_pos hself]
  exact (derivedCalls_congr hindex hknown).symm

/-- The second of two equal updates does nothing, whatever the first one has found. -/
theorem updateEntry_updateEntry (r : Resolver) (path : String) (entry : IndexEntry) :
    (r.updateEntry path entry).resolver.updateEntry path entry =
      ⟨(r.updateEntry path entry).resolver, ∅⟩ := by
  have hknown : path ∈ (r.updateEntry path entry).resolver.knownFiles := by
    rw [knownFiles_updateEntry]
    exact Std.ExtTreeSet.mem_insert_self
  have hentry : (r.updateEntry path entry).resolver.index[path]? = some entry := by
    rw [index_updateEntry]
    exact Std.ExtTreeMap.getElem?_insert_self
  rw [updateEntry_of_unchanged hknown hentry]
  exact Change.rederive_eq_self (callsFrom_updateEntry_self r path entry)

/-! ## Exactness -/

/-- Whatever the resolver records, an update reports the files of which it changes the calls, and the
same update once more does nothing. So does a derivation of all calls report them, and so does the
removal of a file, which is not reported itself. An update fails only where imports cannot be read. -/
theorem affected_exact [Parsers] (r : Resolver) :
    (∀ step : Step,
      ((∃ change, step.change r = .ok change) ↔
        (entryOf? step.path step.revision).isSome = true) ∧
      ∀ change, step.change r = .ok change →
        (∀ file, file ∈ change.affected ↔ change.resolver.callsFrom file ≠ r.callsFrom file) ∧
          step.change change.resolver = .ok ⟨change.resolver, ∅⟩) ∧
      (∀ file, file ∈ r.resolveAll.affected ↔
        r.resolveAll.resolver.callsFrom file ≠ r.callsFrom file) ∧
      ∀ path file, file ∈ (r.removeFile path).affected ↔
        file ≠ path ∧ (r.removeFile path).resolver.callsFrom file ≠ r.callsFrom file := by
  refine ⟨fun step => ⟨?_, fun change hchange => ?_⟩, fun file => mem_affected_resolveAll,
    fun path file => mem_affected_removeFile⟩
  · simp only [Step.change_eq_ok, Option.isSome_iff_exists]
    constructor
    · rintro ⟨change, entry, hentry, -⟩
      exact ⟨entry, hentry⟩
    · rintro ⟨entry, hentry⟩
      exact ⟨_, entry, hentry, rfl⟩
  · obtain ⟨entry, hentry, rfl⟩ := Step.change_eq_ok.mp hchange
    refine ⟨fun file => mem_affected_updateEntry, Step.change_eq_ok.mpr ⟨entry, hentry, ?_⟩⟩
    exact updateEntry_updateEntry r step.path entry

/-- One of two files that an import can lead to has been forgotten, and another file registered. The
call of the file that is left is missing, and the update of the importer with the content it has reports
the importer, as does a derivation of all calls. -/
theorem affected_exact_of_missing_call :
    let importer : Step := .updateWith "import l" "a.py" (.ofList [⟨"f", 2, 3, ["l.h"]⟩])
    let steps : List Step := [importer,
      .updateWith "def h():" "l/__init__.py" (.ofList [⟨"h", 1, 2, []⟩]),
      .updateWith "def h():" "l.py" (.ofList [⟨"h", 1, 2, []⟩])]
    ∃ r change, (run steps).map (fun r => (r.removeFile "l.py").resolver.registerFile "c.py") = .ok r ∧
      importer.change r = .ok change ∧
      (r.calls.toList = [] ∧ change.affected.toList = ["a.py"] ∧
        r.resolveAll.affected.toList = ["a.py"]) ∧
      (∀ file, file ∈ change.affected ↔ change.resolver.callsFrom file ≠ r.callsFrom file) ∧
      importer.change change.resolver = .ok ⟨change.resolver, ∅⟩ ∧
      ∀ file, file ∈ r.resolveAll.affected ↔
        r.resolveAll.resolver.callsFrom file ≠ r.callsFrom file := by
  intro importer steps
  have hreports : ((run steps).map fun r =>
      (r.removeFile "l.py").resolver.registerFile "c.py").toOption.map (fun r =>
        (r.calls.toList, (importer.change r).toOption.map (·.affected.toList),
          r.resolveAll.affected.toList)) = some ([], some ["a.py"], ["a.py"]) := by decide +kernel
  obtain ⟨r, hr, heq⟩ := Outcome.exists_of_map_toOption hreports
  simp only [Prod.mk.injEq] at heq
  obtain ⟨hcalls, haffected, hall⟩ := heq
  obtain ⟨change, hchange, haffected⟩ := Outcome.exists_of_map_toOption haffected
  obtain ⟨hupdate, hresolve, -⟩ := affected_exact r
  obtain ⟨hexact, hagain⟩ := (hupdate importer).2 change hchange
  exact ⟨r, change, hr, hchange, ⟨hcalls, haffected, hall⟩, hexact, hagain, hresolve⟩

end Resolver

end Flowgraph

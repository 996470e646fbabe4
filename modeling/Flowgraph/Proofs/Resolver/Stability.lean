import Flowgraph.Proofs.Resolver.Updating

/-!
# Specifiers when other files come and go

A specifier leads to a known file other than the one it is written in. Which file that is changes with
the other files in two ways alone: one that becomes known can take the specifier over, and one that is
forgotten gives up the specifiers that led to it.
-/

namespace Flowgraph

namespace Resolver

variable {r : Resolver} {path importer specifier file : String} {cs : List Char}

/-! ## Known files -/

theorem mem_knownFiles_of_knownCandidate? (h : r.knownCandidate? cs = some file) :
    file ∈ r.knownFiles :=
  Std.ExtTreeSet.contains_iff_mem.mp (List.find?_some h)

theorem mem_knownFiles_of_bareModule? (h : r.bareModule? importer cs = some file) :
    file ∈ r.knownFiles := by
  obtain ⟨p, q, hor⟩ := exists_bareModule?_eq_or importer cs
  rw [hor r, Option.or_eq_some_iff] at h
  obtain h | ⟨-, h⟩ := h
  · exact Std.ExtTreeSet.mem_toList.mp (List.mem_of_find?_eq_some h)
  · exact Std.ExtTreeSet.mem_toList.mp (List.mem_of_find?_eq_some h)

/-- A specifier leads to a known file. -/
theorem mem_knownFiles_of_resolveSpecifier (h : r.resolveSpecifier importer specifier = some file) :
    file ∈ r.knownFiles := by
  have hcandidate {cs : List Char} (hfilter : (r.knownCandidate? cs).filter (· != importer) = some file) :
      file ∈ r.knownFiles :=
    mem_knownFiles_of_knownCandidate? (Option.filter_eq_some_iff.mp hfilter).1
  rw [resolveSpecifier] at h
  split at h
  · split at h
    next => cases h
    next => exact hcandidate h
  · split at h
    next found hfound => exact hcandidate (hfound.trans h)
    next => exact mem_knownFiles_of_bareModule? h

/-! ## Fewer known files -/

theorem knownFiles_eq_insert_removeFile (hknown : path ∈ r.knownFiles) :
    r.knownFiles = (r.removeFile path).resolver.knownFiles.insert path := by
  refine Std.ExtTreeSet.ext_mem fun file => ?_
  simp only [removeFile, Std.ExtTreeSet.mem_insert, Std.ExtTreeSet.mem_erase, ne_eq,
    Std.LawfulEqCmp.compare_eq_iff_eq]
  by_cases heq : path = file
  · simp [← heq, hknown]
  · simp [heq]

theorem knownFiles_removeFile_of_not_mem (hknown : path ∉ r.knownFiles) :
    (r.removeFile path).resolver.knownFiles = r.knownFiles := by
  refine Std.ExtTreeSet.ext_mem fun file => ?_
  simp only [removeFile, Std.ExtTreeSet.mem_erase, ne_eq, Std.LawfulEqCmp.compare_eq_iff_eq]
  refine and_iff_right_of_imp ?_
  rintro hfile rfl
  exact hknown hfile

/-- A file that is forgotten has no say in what a specifier led to, unless it led there. -/
theorem stableBut_removeFile (hne : path ≠ importer) (specifier : String) :
    StableBut path ((r.removeFile path).resolver.resolveSpecifier importer specifier)
      (r.resolveSpecifier importer specifier) := by
  by_cases hknown : path ∈ r.knownFiles
  · exact resolveSpecifier_insert (knownFiles_eq_insert_removeFile hknown) hne specifier
  · exact .inl (resolveSpecifier_congr (knownFiles_removeFile_of_not_mem hknown)).symm

theorem resolveSpecifier_removeFile_ne :
    (r.removeFile path).resolver.resolveSpecifier importer specifier ≠ some path := by
  intro h
  have hmem := mem_knownFiles_of_resolveSpecifier h
  simp [removeFile] at hmem

/-! ## Stability -/

/-- A specifier leads to a known file, and never to the one that it is written in. Another file that
becomes known, alone or with an entry, leaves the specifier where it led or draws it to itself. One that is
forgotten leaves it where it led exactly if it did not lead to that file. -/
theorem resolveSpecifier_stable (r : Resolver) (importer specifier : String) :
    (∀ path ≠ importer,
      ((r.registerFile path).resolveSpecifier importer specifier =
            r.resolveSpecifier importer specifier ∨
          (r.registerFile path).resolveSpecifier importer specifier = some path) ∧
        (∀ entry,
          (r.updateEntry path entry).resolver.resolveSpecifier importer specifier =
              r.resolveSpecifier importer specifier ∨
            (r.updateEntry path entry).resolver.resolveSpecifier importer specifier = some path) ∧
        ((r.removeFile path).resolver.resolveSpecifier importer specifier =
            r.resolveSpecifier importer specifier ↔
          r.resolveSpecifier importer specifier ≠ some path)) ∧
      ∀ file, r.resolveSpecifier importer specifier = some file →
        file ∈ r.knownFiles ∧ file ≠ importer := by
  refine ⟨fun path hne => ⟨?_, fun entry => ?_, fun heq => ?_, fun hother => ?_⟩, fun file hfile => ?_⟩
  · exact resolveSpecifier_insert rfl hne specifier
  · exact resolveSpecifier_insert (knownFiles_updateEntry r path entry) hne specifier
  · rw [← heq]
    exact resolveSpecifier_removeFile_ne
  · exact ((stableBut_removeFile hne specifier).eq_of_ne hother).symm
  · refine ⟨mem_knownFiles_of_resolveSpecifier hfile, ?_⟩
    rintro rfl
    exact resolveSpecifier_ne_importer hfile

/-- A file takes over a specifier that has led to the index of a directory, and gives it up again. A file
that is found later changes nothing. -/
theorem resolveSpecifier_stable_of_nearer_file :
    let r := (Resolver.empty.registerFile "app.js").registerFile "lib/index.js"
    "lib.js" ≠ "app.js" ∧ r.resolveSpecifier "app.js" "./lib" = some "lib/index.js" ∧
      (r.registerFile "lib.js").resolveSpecifier "app.js" "./lib" = some "lib.js" ∧
      (r.removeFile "lib.js").resolver.resolveSpecifier "app.js" "./lib" = some "lib/index.js" ∧
      "lib/index.js" ∈ r.knownFiles ∧ "lib/index.js" ≠ "app.js" := by
  intro r
  have hne : "lib.js" ≠ "app.js" := by decide
  have hfound : r.resolveSpecifier "app.js" "./lib" = some "lib/index.js" := by decide +kernel
  obtain ⟨hstable, hmem⟩ := resolveSpecifier_stable r "app.js" "./lib"
  obtain ⟨hadded, -, hremoved⟩ := hstable "lib.js" hne
  have htaken : (r.registerFile "lib.js").resolveSpecifier "app.js" "./lib" ≠ some "lib/index.js" := by
    decide +kernel
  rw [hfound] at hadded hremoved
  exact ⟨hne, hfound, hadded.resolve_left htaken, hremoved.mpr (by decide), hmem _ hfound⟩

end Resolver

end Flowgraph

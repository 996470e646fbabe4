import Mathlib.Tactic.ByContra
import Flowgraph.Proofs.Resolver.Resolution

/-!
# Resolvers that know more files

Where more files are known, a specifier leads where it led before or to one of the further files. The
calls that are derived for a file then differ only through imports that lead there.
-/

namespace Flowgraph

namespace Resolver

variable {r s : Resolver} {importer specifier file module target : String} {entry : IndexEntry}
  {files : List String}

/-! ## Registered files -/

theorem mem_knownFiles_foldl_registerFile :
    file ∈ (files.foldl registerFile r).knownFiles ↔ file ∈ r.knownFiles ∨ file ∈ files := by
  induction files generalizing r with
  | nil => simp
  | cons f files ih =>
    simp only [List.foldl_cons, ih, registerFile, Std.ExtTreeSet.mem_insert,
      Std.LawfulEqCmp.compare_eq_iff_eq, List.mem_cons]
    simp only [or_assoc, or_left_comm, eq_comm]

theorem resolveSpecifier_foldl_registerFile (himporter : importer ∉ files) :
    (files.foldl registerFile r).resolveSpecifier importer specifier =
        r.resolveSpecifier importer specifier ∨
      ∃ file ∈ files,
        (files.foldl registerFile r).resolveSpecifier importer specifier = some file := by
  induction files generalizing r with
  | nil => exact .inl rfl
  | cons f files ih =>
    rw [List.mem_cons, not_or] at himporter
    have hfirst : StableBut f (r.resolveSpecifier importer specifier)
        ((r.registerFile f).resolveSpecifier importer specifier) :=
      resolveSpecifier_insert rfl (Ne.symm himporter.1) specifier
    rcases ih (r := r.registerFile f) himporter.2 with hlater | ⟨file, hfile, hlater⟩
    · rw [List.foldl_cons, hlater]
      exact hfirst.imp_right fun hf => ⟨f, List.mem_cons_self, hf⟩
    · exact .inr ⟨file, List.mem_cons_of_mem f hfile, hlater⟩

/-! ## Extensions -/

/-- `s` knows the files of `r`, with the same entries, and perhaps others. -/
structure Extends (r s : Resolver) : Prop where
  mem_knownFiles : ∀ file ∈ r.knownFiles, file ∈ s.knownFiles
  index_eq : ∀ file ∈ r.knownFiles, s.index[file]? = r.index[file]?

/-- Whether an import of a file leads to a file that satisfies `P`. -/
def LeadsTo (r : Resolver) (file : String) (P : String → Prop) : Prop :=
  ∃ entry, r.index[file]? = some entry ∧ ∃ b ∈ entry.imports, ∃ specifier ∈ b.specifiers,
    ∃ target, r.resolveSpecifier file specifier = some target ∧ P target

namespace Extends

variable (h : r.Extends s)

include h

theorem resolveSpecifier (himporter : importer ∈ r.knownFiles) (specifier : String) :
    s.resolveSpecifier importer specifier = r.resolveSpecifier importer specifier ∨
      ∃ file ∉ r.knownFiles, s.resolveSpecifier importer specifier = some file := by
  -- The files that only `s` knows are registered one after another.
  let extra := s.knownFiles.toList.filter fun file => !r.knownFiles.contains file
  have hextra {file : String} : file ∈ extra ↔ file ∈ s.knownFiles ∧ file ∉ r.knownFiles := by
    simp [extra, ← Std.ExtTreeSet.contains_iff_mem]
  have hknown : s.knownFiles = (extra.foldl registerFile r).knownFiles := by
    refine Std.ExtTreeSet.ext_mem fun file => ?_
    rw [mem_knownFiles_foldl_registerFile, hextra]
    have hkeep := h.mem_knownFiles file
    grind
  have hnot : importer ∉ extra := fun hmem => (hextra.mp hmem).2 himporter
  rw [resolveSpecifier_congr hknown]
  refine (resolveSpecifier_foldl_registerFile hnot).imp_right ?_
  exact fun ⟨file, hfile, hfound⟩ => ⟨file, (hextra.mp hfile).2, hfound⟩

/-- A module that leads to a file of the smaller resolver leads there in both. -/
theorem resolveModule (himporter : importer ∈ r.knownFiles)
    (hmodule : s.resolveModule importer entry module = some target) (htarget : target ∈ r.knownFiles) :
    r.resolveModule importer entry module = some target := by
  rw [Resolver.resolveModule] at hmodule ⊢
  generalize (entry.imports.filter (·.name == module)).flatMap (·.specifiers) = specifiers at hmodule ⊢
  -- Up to the specifier that leads somewhere, none leads to a further file.
  induction specifiers with
  | nil => cases hmodule
  | cons specifier specifiers ih =>
    rw [List.findSome?_cons] at hmodule ⊢
    rcases h.resolveSpecifier himporter specifier with hsame | ⟨file, hfile, hfound⟩
    · rw [← hsame]
      cases hspecifier : s.resolveSpecifier importer specifier with
      | none =>
        rw [hspecifier] at hmodule
        exact ih hmodule
      | some found =>
        rw [hspecifier] at hmodule
        exact hmodule
    · rw [hfound] at hmodule
      exact absurd (Option.some.inj hmodule ▸ htarget) hfile

/-- The larger resolver derives no call between files of the smaller one that this does not derive. -/
theorem mem_derivedCalls (hfile : file ∈ r.knownFiles) {c : CrossFileCall} (hc : c ∈ s.derivedCalls file)
    (hcallee : c.callee.file ∈ r.knownFiles) : c ∈ r.derivedCalls file := by
  obtain ⟨entry, hentry, f, hf, call, hcall, hresolve⟩ := Resolver.mem_derivedCalls.mp hc
  obtain ⟨module, callee, target, hsplit, hmodule, hexports, rfl⟩ := resolveCall?_eq_some.mp hresolve
  rw [h.index_eq target hcallee] at hexports
  rw [h.index_eq file hfile] at hentry
  exact Resolver.mem_derivedCalls.mpr ⟨entry, hentry, f, hf, call, hcall, resolveCall?_eq_some.mpr
    ⟨module, callee, target, hsplit, h.resolveModule hfile hmodule hcallee, hexports, rfl⟩⟩

/-- Both derive the same calls for a file whose imports all lead to files of the smaller one. -/
theorem derivedCalls_eq (hfile : file ∈ r.knownFiles) (hin : ¬ s.LeadsTo file (· ∉ r.knownFiles)) :
    s.derivedCalls file = r.derivedCalls file := by
  refine derivedCalls_eq_of_imports (h.index_eq file hfile) fun entry hentry b hb specifier hs => ?_
  have htarget (target : String) (hfound : s.resolveSpecifier file specifier = some target) :
      target ∈ r.knownFiles := by
    by_contra hout
    exact hin ⟨entry, hentry, b, hb, specifier, hs, target, hfound, hout⟩
  refine ⟨(h.resolveSpecifier hfile specifier).resolve_right ?_, fun target hfound =>
    h.index_eq target (htarget target hfound)⟩
  rintro ⟨target, hout, hfound⟩
  exact hout (htarget target hfound)

end Extends

end Resolver

end Flowgraph

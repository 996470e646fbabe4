import Flowgraph.Proofs.Graph.CrossFile
import Flowgraph.Proofs.Resolver.Resolution

/-!
# Updating the resolver

Which calls a resolver records after calls have been derived again, after a file has been indexed and
after one has been forgotten, and that the affected files are those of which the calls have changed.
-/

namespace Flowgraph

namespace Resolver

variable {r s : Resolver} {path file : String} {entry : IndexEntry} {c : CrossFileCall}

/-! ## Recorded calls -/

theorem mem_callsFrom : c ∈ r.callsFrom file ↔ c ∈ r.calls ∧ c.caller.file = file := by
  simp [callsFrom]

/-- The recorded calls are known by file. -/
theorem calls_ext (h : ∀ file, r.callsFrom file = s.callsFrom file) : r.calls = s.calls := by
  refine Std.ExtTreeSet.ext_mem fun c => ?_
  have hc : c ∈ r.callsFrom c.caller.file ↔ c ∈ s.callsFrom c.caller.file := by rw [h]
  simpa only [mem_callsFrom, and_true] using hc

/-- Every recorded call leads to another file. -/
def IsProper (r : Resolver) : Prop := ∀ c ∈ r.calls, c.IsProper

theorem isProper_iff : r.IsProper ↔ ∀ file, ∀ c ∈ r.callsFrom file, c.callee.file ≠ file := by
  simp only [IsProper, CrossFileCall.IsProper, mem_callsFrom]
  constructor
  · rintro hproper file c ⟨hc, rfl⟩
    exact hproper c hc
  · exact fun hproper c hc => hproper c.caller.file c ⟨hc, rfl⟩

theorem isProper_empty : empty.IsProper := by
  intro c hc
  exact absurd hc (by simp [empty])

/-! ## Deriving again -/

section Rederive

theorem index_rederive (r : Resolver) (file : String) : (r.rederive file).index = r.index := by
  simp only [rederive]
  split <;> rfl

theorem knownFiles_rederive (r : Resolver) (file : String) :
    (r.rederive file).knownFiles = r.knownFiles := by
  simp only [rederive]
  split <;> rfl

theorem callsFrom_rederive (r : Resolver) (file other : String) :
    (r.rederive file).callsFrom other =
      if other = file then r.derivedCalls file else r.callsFrom other := by
  rw [rederive]
  by_cases hsame : r.derivedCalls file = r.callsFrom file
  · simp only [hsame, if_true]
    split
    next heq => rw [heq]
    next => rfl
  · simp only [hsame, if_false]
    refine Std.ExtTreeSet.ext_mem fun c => ?_
    rw [mem_callsFrom]
    simp only [Std.ExtTreeSet.mem_union_iff, OrderedSet.mem_filter, bne_iff_ne]
    split
    next heq =>
      subst heq
      constructor
      · rintro ⟨⟨-, hne⟩ | hc, hfile⟩
        · exact absurd hfile hne
        · exact hc
      · exact fun hc => ⟨.inr hc, caller_file_of_mem_derivedCalls hc⟩
    next hne =>
      rw [mem_callsFrom]
      constructor
      · rintro ⟨⟨hc, -⟩ | hc, hfile⟩
        · exact ⟨hc, hfile⟩
        · exact absurd (hfile.symm.trans (caller_file_of_mem_derivedCalls hc)) hne
      · rintro ⟨hc, rfl⟩
        exact ⟨.inl ⟨hc, hne⟩, rfl⟩

/-- `after` is `before` with the calls of `files` derived again. -/
structure Change.Rederives (before after : Change) (files : List String) : Prop where
  index_eq : after.resolver.index = before.resolver.index
  knownFiles_eq : after.resolver.knownFiles = before.resolver.knownFiles
  callsFrom_eq : ∀ file, after.resolver.callsFrom file =
    if file ∈ files then before.resolver.derivedCalls file else before.resolver.callsFrom file
  mem_affected : ∀ file, file ∈ after.affected ↔ file ∈ before.affected ∨
    file ∈ files ∧ before.resolver.derivedCalls file ≠ before.resolver.callsFrom file

theorem Change.rederives_rederive (change : Change) (file : String) :
    change.Rederives (change.rederive file) [file] := by
  -- Whether the calls have changed or not, the resolver is the one with the calls derived again.
  have hsame {after : Change} (h : after.resolver = change.resolver.rederive file)
      (haffected : ∀ other, other ∈ after.affected ↔ other ∈ change.affected ∨ other ∈ [file] ∧
        change.resolver.derivedCalls other ≠ change.resolver.callsFrom other) :
      change.Rederives after [file] := by
    refine ⟨?_, ?_, fun other => ?_, haffected⟩
    · rw [h, index_rederive]
    · rw [h, knownFiles_rederive]
    · rw [h, callsFrom_rederive]
      simp only [List.mem_singleton]
      split
      next heq => rw [heq]
      next => rfl
  rw [Change.rederive]
  by_cases hfresh : change.resolver.derivedCalls file = change.resolver.callsFrom file
  · rw [if_pos hfresh]
    refine hsame (by simp only [Resolver.rederive, hfresh, if_true]) fun other => ?_
    refine (or_iff_left ?_).symm
    rintro ⟨hother, hne⟩
    exact hne (List.mem_singleton.mp hother ▸ hfresh)
  · rw [if_neg hfresh]
    refine hsame rfl fun other => ?_
    rw [Std.ExtTreeSet.mem_insert, Std.LawfulEqCmp.compare_eq_iff_eq, List.mem_singleton, or_comm]
    refine or_congr_right ⟨?_, fun h => h.1.symm⟩
    rintro rfl
    exact ⟨rfl, hfresh⟩

theorem Change.rederive_eq_self (hcurrent : r.callsFrom file = r.derivedCalls file) :
    Change.rederive ⟨r, ∅⟩ file = ⟨r, ∅⟩ :=
  if_pos hcurrent.symm

theorem Change.Rederives.trans {change change' change'' : Change} {files files' : List String}
    (h : change.Rederives change' files) (h' : change'.Rederives change'' files') :
    change.Rederives change'' (files ++ files') where
  index_eq := h'.index_eq.trans h.index_eq
  knownFiles_eq := h'.knownFiles_eq.trans h.knownFiles_eq
  callsFrom_eq file := by
    rw [h'.callsFrom_eq, derivedCalls_congr h.index_eq h.knownFiles_eq, h.callsFrom_eq]
    by_cases hmem : file ∈ files' <;> simp [hmem]
  mem_affected file := by
    rw [h'.mem_affected, h.mem_affected, derivedCalls_congr h.index_eq h.knownFiles_eq, h.callsFrom_eq,
      List.mem_append]
    by_cases hmem : file ∈ files <;> simp [hmem]

theorem Change.rederives_foldl (change : Change) (files : List String) :
    change.Rederives (files.foldl Change.rederive change) files := by
  induction files generalizing change with
  | nil => exact ⟨rfl, rfl, fun _ => by simp, fun _ => by simp⟩
  | cons file files ih => exact (change.rederives_rederive file).trans (ih _)

theorem Change.resolver_foldl_rederive (change : Change) (files : List String) :
    (files.foldl Change.rederive change).resolver =
      files.foldl Resolver.rederive change.resolver := by
  induction files generalizing change with
  | nil => rfl
  | cons file files ih =>
    have hfirst : (change.rederive file).resolver = change.resolver.rederive file := by
      rw [Change.rederive]
      split
      next hsame => simp only [Resolver.rederive, hsame, if_true]
      next => rfl
    rw [List.foldl_cons, List.foldl_cons, ih, hfirst]

/-- The affected files are those of which the recorded calls have changed. -/
theorem Change.Rederives.mem_affected_iff {change : Change} {files : List String}
    (h : Change.Rederives ⟨s, ∅⟩ change files) (hcalls : s.calls = r.calls) :
    file ∈ change.affected ↔ change.resolver.callsFrom file ≠ r.callsFrom file := by
  have hbefore : s.callsFrom file = r.callsFrom file := by rw [callsFrom, hcalls, callsFrom]
  rw [h.mem_affected, h.callsFrom_eq, ← hbefore, or_iff_right Std.ExtTreeSet.not_mem_empty]
  split
  next hmem => exact and_iff_right hmem
  next hmem => simp [hmem]

theorem Change.Rederives.isProper {before after : Change} {files : List String}
    (h : before.Rederives after files) (hproper : before.resolver.IsProper) :
    after.resolver.IsProper := by
  rw [isProper_iff] at hproper ⊢
  intro file c hc
  rw [h.callsFrom_eq] at hc
  split at hc
  · exact callee_file_ne_of_mem_derivedCalls hc
  · exact hproper file c hc

end Rederive

/-! ## Indexing a file -/

/-- The resolver with the entry of a file in the index and no calls derived again. -/
def withEntry (r : Resolver) (path : String) (entry : IndexEntry) : Resolver :=
  { r with index := r.index.insert path entry, knownFiles := r.knownFiles.insert path }

/-- The files of which the calls are derived again after the entry of a file has been put into the
index. -/
def rederivedFiles (r : Resolver) (path : String) (entry : IndexEntry) : List String :=
  if !r.knownFiles.contains path || r.index[path]? != some entry then
    path :: (r.withEntry path entry).importersOf path
  else [path]

theorem rederives_updateEntry (r : Resolver) (path : String) (entry : IndexEntry) :
    Change.Rederives ⟨r.withEntry path entry, ∅⟩ (r.updateEntry path entry)
      (r.rederivedFiles path entry) := by
  have hown := Change.rederives_rederive ⟨r.withEntry path entry, ∅⟩ path
  have himporters : (Change.rederive ⟨r.withEntry path entry, ∅⟩ path).resolver.importersOf path =
      (r.withEntry path entry).importersOf path := importersOf_congr hown.index_eq hown.knownFiles_eq
  -- The importers are looked up after the file itself, which changes neither index nor files.
  simp only [updateEntry, rederivedFiles]
  split
  · rw [← himporters]
    exact hown.trans (Change.rederives_foldl _ _)
  · exact hown

theorem index_updateEntry (r : Resolver) (path : String) (entry : IndexEntry) :
    (r.updateEntry path entry).resolver.index = r.index.insert path entry :=
  (rederives_updateEntry r path entry).index_eq

theorem knownFiles_updateEntry (r : Resolver) (path : String) (entry : IndexEntry) :
    (r.updateEntry path entry).resolver.knownFiles = r.knownFiles.insert path :=
  (rederives_updateEntry r path entry).knownFiles_eq

theorem callsFrom_updateEntry (r : Resolver) (path : String) (entry : IndexEntry) (file : String) :
    (r.updateEntry path entry).resolver.callsFrom file =
      if file ∈ r.rederivedFiles path entry then (r.withEntry path entry).derivedCalls file
      else r.callsFrom file :=
  (rederives_updateEntry r path entry).callsFrom_eq file

theorem mem_affected_updateEntry :
    file ∈ (r.updateEntry path entry).affected ↔
      (r.updateEntry path entry).resolver.callsFrom file ≠ r.callsFrom file :=
  (rederives_updateEntry r path entry).mem_affected_iff rfl

theorem isProper_updateEntry (hr : r.IsProper) (path : String) (entry : IndexEntry) :
    (r.updateEntry path entry).resolver.IsProper :=
  (rederives_updateEntry r path entry).isProper hr

/-! ## Deriving all calls -/

theorem rederives_resolveAll (r : Resolver) : Change.Rederives ⟨r, ∅⟩ r.resolveAll r.index.keys :=
  Change.rederives_foldl ⟨r, ∅⟩ r.index.keys

theorem index_resolveAll (r : Resolver) : r.resolveAll.resolver.index = r.index :=
  (rederives_resolveAll r).index_eq

theorem knownFiles_resolveAll (r : Resolver) : r.resolveAll.resolver.knownFiles = r.knownFiles :=
  (rederives_resolveAll r).knownFiles_eq

theorem mem_affected_resolveAll :
    file ∈ r.resolveAll.affected ↔ r.resolveAll.resolver.callsFrom file ≠ r.callsFrom file :=
  (rederives_resolveAll r).mem_affected_iff rfl

theorem isProper_resolveAll (hr : r.IsProper) : r.resolveAll.resolver.IsProper :=
  (rederives_resolveAll r).isProper hr

/-! ## Forgetting a file -/

theorem mem_callsFrom_removeFile :
    c ∈ (r.removeFile path).resolver.callsFrom file ↔
      c ∈ r.callsFrom file ∧ file ≠ path ∧ c.callee.file ≠ path := by
  simp only [mem_callsFrom, removeFile, OrderedSet.mem_filter, Bool.and_eq_true, bne_iff_ne]
  constructor
  · rintro ⟨⟨hc, hcaller, hcallee⟩, rfl⟩
    exact ⟨⟨hc, rfl⟩, hcaller, hcallee⟩
  · rintro ⟨⟨hc, rfl⟩, hcaller, hcallee⟩
    exact ⟨⟨hc, hcaller, hcallee⟩, rfl⟩

/-- The affected files are the others of which the recorded calls have changed. -/
theorem mem_affected_removeFile :
    file ∈ (r.removeFile path).affected ↔
      file ≠ path ∧ (r.removeFile path).resolver.callsFrom file ≠ r.callsFrom file := by
  have haffected : file ∈ (r.removeFile path).affected ↔
      file ≠ path ∧ ∃ c ∈ r.callsFrom file, c.callee.file = path := by
    simp only [removeFile, Std.ExtTreeSet.mem_ofList, List.contains_iff_mem, List.mem_map,
      List.mem_filter, Std.ExtTreeSet.mem_toList, Bool.and_eq_true, bne_iff_ne, beq_iff_eq,
      mem_callsFrom]
    constructor
    · rintro ⟨c, ⟨hc, hcaller, hcallee⟩, rfl⟩
      exact ⟨hcaller, c, ⟨hc, rfl⟩, hcallee⟩
    · rintro ⟨hne, c, ⟨hc, rfl⟩, hcallee⟩
      exact ⟨c, ⟨hc, hne, hcallee⟩, rfl⟩
  rw [haffected]
  refine and_congr_right fun hne => ?_
  constructor
  · rintro ⟨c, hc, hcallee⟩ heq
    rw [← heq, mem_callsFrom_removeFile] at hc
    exact hc.2.2 hcallee
  -- Only calls that lead to the forgotten file have gone.
  · intro hchanged
    by_contra hnone
    push Not at hnone
    refine hchanged (Std.ExtTreeSet.ext_mem fun c => ?_)
    rw [mem_callsFrom_removeFile, and_iff_left_iff_imp]
    exact fun hc => ⟨hne, hnone c hc⟩

theorem isProper_removeFile (hr : r.IsProper) (path : String) :
    (r.removeFile path).resolver.IsProper := by
  rw [isProper_iff] at hr ⊢
  exact fun file c hc => hr file c (mem_callsFrom_removeFile.mp hc).1

end Resolver

end Flowgraph

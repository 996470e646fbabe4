import Flowgraph.Proofs.Graph.Drawing
import Flowgraph.Proofs.Outcome
import Flowgraph.Syntax.Parsers

/-!
# Confluence of the resolver

A resolver whose recorded calls are those that follow from its index stays so under updates. It is told
by its index and its known files alone, and hence by the last revision of every file.
-/

namespace Flowgraph

namespace Resolver

/-! ## Settled resolvers -/

section Settled

variable {r s : Resolver} {path : String} {entry : IndexEntry}

/-- The recorded calls are those that follow from the index. -/
def Settled (r : Resolver) : Prop := ∀ file, r.callsFrom file = r.derivedCalls file

theorem settled_empty : empty.Settled := by
  intro file
  refine Std.ExtTreeSet.ext_mem fun c => ?_
  simp [mem_callsFrom, mem_derivedCalls, empty]

theorem withEntry_of_unchanged (hknown : path ∈ r.knownFiles) (hentry : r.index[path]? = some entry) :
    r.withEntry path entry = r := by
  refine Resolver.ext (Std.ExtTreeMap.ext_getElem? fun file => ?_)
    (Std.ExtTreeSet.ext_mem fun file => ?_) rfl
  · simp only [withEntry, Std.ExtTreeMap.getElem?_insert, Std.LawfulEqCmp.compare_eq_iff_eq]
    split
    next heq => rw [← heq, hentry]
    next => rfl
  · simp only [withEntry, Std.ExtTreeSet.mem_insert, Std.LawfulEqCmp.compare_eq_iff_eq]
    constructor
    · rintro (rfl | hfile)
      · exact hknown
      · exact hfile
    · exact .inr

/-- A known file that keeps its entry has its own calls derived again, and no others. -/
theorem updateEntry_of_unchanged (hknown : path ∈ r.knownFiles) (hentry : r.index[path]? = some entry) :
    r.updateEntry path entry = Change.rederive ⟨r, ∅⟩ path := by
  have hwith := withEntry_of_unchanged hknown hentry
  rw [withEntry] at hwith
  simp only [updateEntry, hwith, hentry, Std.ExtTreeSet.contains_iff_mem.mpr hknown]
  simp

/-- What is not derived again would not have changed. -/
theorem derivedCalls_withEntry {file : String} (hfile : file ∉ r.rederivedFiles path entry) :
    (r.withEntry path entry).derivedCalls file = r.derivedCalls file := by
  rw [rederivedFiles] at hfile
  split at hfile
  · rw [List.mem_cons, not_or] at hfile
    exact derivedCalls_insert rfl rfl hfile.1 hfile.2
  next hsame =>
    simp only [Bool.or_eq_true, Bool.not_eq_true', not_or, Bool.not_eq_false,
      Std.ExtTreeSet.contains_iff_mem, bne_iff_ne, not_not] at hsame
    rw [withEntry_of_unchanged hsame.1 hsame.2]

theorem Settled.updateEntry (hr : r.Settled) (path : String) (entry : IndexEntry) :
    (r.updateEntry path entry).resolver.Settled := by
  intro file
  have hderived : (r.updateEntry path entry).resolver.derivedCalls file =
      (r.withEntry path entry).derivedCalls file :=
    derivedCalls_congr (index_updateEntry r path entry) (knownFiles_updateEntry r path entry)
  -- A file is derived again, or its calls are those it had and would be derived the same.
  rw [hderived, callsFrom_updateEntry]
  split
  next => rfl
  next hfile => rw [derivedCalls_withEntry hfile, hr file]

/-- A settled resolver is told by its index and its known files. -/
theorem Settled.eq (hr : r.Settled) (hs : s.Settled) (hindex : r.index = s.index)
    (hknown : r.knownFiles = s.knownFiles) : r = s := by
  refine Resolver.ext hindex hknown (calls_ext fun file => ?_)
  rw [hr file, hs file, derivedCalls_congr hindex hknown]

theorem Settled.resolveAll_eq (hr : r.Settled) : r.resolveAll = ⟨r, ∅⟩ := by
  rw [resolveAll]
  induction r.index.keys with
  | nil => rfl
  | cons file files ih =>
    rw [List.foldl_cons, Change.rederive_eq_self (hr file), ih]

theorem Settled.isProper (hr : r.Settled) : r.IsProper :=
  isProper_iff.mpr fun file _ hc => callee_file_ne_of_mem_derivedCalls (hr file ▸ hc)

/-- A recorded call leads to a file of the index. -/
theorem Settled.exists_entry (hr : r.Settled) {file function file' function' : String}
    (hrecords : r.Records file function file' function') : ∃ entry, r.index[file']? = some entry := by
  obtain ⟨c, hc, rfl, rfl, rfl, rfl⟩ := hrecords
  have hderived : c ∈ r.derivedCalls c.caller.file := hr c.caller.file ▸ mem_callsFrom.mpr ⟨hc, rfl⟩
  obtain ⟨entry, -, f, -, call, -, hcall⟩ := mem_derivedCalls.mp hderived
  obtain ⟨module, callee, target, -, -, ⟨targetEntry, htarget, -⟩, hceq⟩ :=
    resolveCall?_eq_some.mp hcall
  rw [hceq]
  exact ⟨targetEntry, htarget⟩

end Settled

/-! ## Indexed files -/

section Parsers

variable [Parsers]

/-- The resolver has indexed the files of a list by their contents, and nothing else. -/
structure Indexes (r : Resolver) (files : List (String × String)) : Prop where
  settled : r.Settled
  index_eq_some : ∀ path entry, r.index[path]? = some entry ↔
    ∃ content, (path, content) ∈ files ∧
      IndexEntry.ofFile path content (extract content path) = .ok entry
  mem_knownFiles : ∀ path, path ∈ r.knownFiles ↔ ∃ content, (path, content) ∈ files

namespace Indexes

variable {r s : Resolver} {files files' : List (String × String)} {path content : String}
  {entry : IndexEntry}

theorem empty : Resolver.empty.Indexes [] :=
  ⟨settled_empty, fun _ _ => by simp [Resolver.empty], fun _ => by simp [Resolver.empty]⟩

theorem updateEntry (hr : r.Indexes files) (hnew : ∀ content, (path, content) ∉ files)
    (hentry : IndexEntry.ofFile path content (extract content path) = .ok entry) :
    (r.updateEntry path entry).resolver.Indexes (files ++ [(path, content)]) where
  settled := hr.settled.updateEntry path entry
  index_eq_some path' entry' := by
    simp only [index_updateEntry, Std.ExtTreeMap.getElem?_insert, Std.LawfulEqCmp.compare_eq_iff_eq,
      List.mem_append, List.mem_singleton, Prod.mk.injEq]
    split
    next heq =>
      subst heq
      simp only [hnew, false_or, true_and, exists_eq_left, hentry, Except.ok.injEq, Option.some.injEq]
    next hne =>
      simp only [hr.index_eq_some, Ne.symm hne, false_and, or_false]
  mem_knownFiles path' := by
    rw [knownFiles_updateEntry, Std.ExtTreeSet.mem_insert, Std.LawfulEqCmp.compare_eq_iff_eq,
      hr.mem_knownFiles]
    simp only [List.mem_append, List.mem_singleton, Prod.mk.injEq, exists_or, exists_and_left,
      exists_eq, and_true]
    rw [or_comm, eq_comm]

/-- The order in which files have been indexed does not matter. -/
theorem eq (hr : r.Indexes files) (hs : s.Indexes files') (hfiles : ∀ f, f ∈ files ↔ f ∈ files') :
    r = s := by
  refine hr.settled.eq hs.settled (Std.ExtTreeMap.ext_getElem? fun path => ?_)
    (Std.ExtTreeSet.ext_mem fun path => ?_)
  · refine Option.ext fun entry => ?_
    rw [hr.index_eq_some, hs.index_eq_some]
    simp only [hfiles]
  · rw [hr.mem_knownFiles, hs.mem_knownFiles]
    simp only [hfiles]

theorem exists_content_of_records (hr : r.Indexes files) {file function file' function' : String}
    (hrecords : r.Records file function file' function') : ∃ content, (file', content) ∈ files := by
  obtain ⟨entry, hentry⟩ := hr.settled.exists_entry hrecords
  obtain ⟨content, hmem, -⟩ := (hr.index_eq_some file' entry).mp hentry
  exact ⟨content, hmem⟩

end Indexes

/-! ## Runs -/

/-- One update: of a file with the call graph of its content, or with a given one. -/
inductive Step where
  | update (content path : String)
  | updateWith (content path : String) (calls : CallGraph)

namespace Step

def path : Step → String
  | update _ path | updateWith _ path _ => path

/-- The content and the call graph that the file is given. -/
def revision : Step → String × CallGraph
  | update content path => (content, extract content path)
  | updateWith content _ calls => (content, calls)

def apply (r : Resolver) : Step → Except ImportError Resolver
  | update content path => (r.update content path).map (·.resolver)
  | updateWith content path calls => (r.updateWith content path calls).map (·.resolver)

/-- The resolver after the update, with the affected files. -/
def change (r : Resolver) : Step → Except ImportError Change
  | update content path => r.update content path
  | updateWith content path calls => r.updateWith content path calls

theorem apply_eq_map_change (r : Resolver) (step : Step) :
    step.apply r = (step.change r).map (·.resolver) := by
  cases step <;> rfl

end Step

/-- The entry of a file in a revision, unless its imports cannot be read. -/
def entryOf? (file : String) (revision : String × CallGraph) : Option IndexEntry :=
  (IndexEntry.ofFile file revision.1 revision.2).toOption

/-- The updates of a new resolver, one after another. -/
def run (steps : List Step) : Except ImportError Resolver := steps.foldlM Step.apply empty

/-- The content and the call graph that the last of the updates of a file gives it. -/
def lastRevision? (file : String) : List Step → Option (String × CallGraph)
  | [] => none
  | step :: steps =>
    (lastRevision? file steps).or (if step.path = file then some step.revision else none)

end Parsers

variable {r s : Resolver} {step : Step} {steps : List Step}

section Parsers

variable [Parsers]

theorem Step.change_eq_ok {change : Change} :
    step.change r = .ok change ↔
      ∃ entry, entryOf? step.path step.revision = some entry ∧ r.updateEntry step.path entry = change := by
  simp only [entryOf?, Outcome.toOption_eq_some]
  cases step with
  | update content path | updateWith content path calls =>
    simp only [Step.change, Resolver.update, Resolver.updateWith, Outcome.map_eq_ok, Step.path, revision]

theorem Step.apply_eq_ok :
    step.apply r = .ok s ↔
      ∃ entry, entryOf? step.path step.revision = some entry ∧
        (r.updateEntry step.path entry).resolver = s := by
  simp only [apply_eq_map_change, Outcome.map_eq_ok, change_eq_ok, exists_exists_and_eq_and]

/-- What a run of updates makes of a resolver. -/
structure Updated (r : Resolver) (steps : List Step) (s : Resolver) : Prop where
  settled : s.Settled
  index_eq : ∀ file, s.index[file]? = (lastRevision? file steps).elim r.index[file]? (entryOf? file)
  mem_knownFiles : ∀ file,
    file ∈ s.knownFiles ↔ file ∈ r.knownFiles ∨ (lastRevision? file steps).isSome = true

theorem Settled.updated (hr : r.Settled) (h : steps.foldlM Step.apply r = .ok s) :
    r.Updated steps s := by
  induction steps generalizing r with
  | nil =>
    cases h
    exact ⟨hr, fun _ => rfl, fun _ => by simp [lastRevision?]⟩
  | cons step steps ih =>
    obtain ⟨t, hstep, hrest⟩ := Outcome.foldlM_cons_eq_ok.mp h
    obtain ⟨entry, hentry, rfl⟩ := Step.apply_eq_ok.mp hstep
    obtain ⟨hs, hindex, hknown⟩ := ih (hr.updateEntry step.path entry) hrest
    -- The first update of a file tells its entry only if no other one follows.
    refine ⟨hs, fun file => ?_, fun file => ?_⟩
    · rw [hindex, lastRevision?, index_updateEntry, Std.ExtTreeMap.getElem?_insert]
      cases lastRevision? file steps with
      | some revision => rfl
      | none =>
        simp only [Std.LawfulEqCmp.compare_eq_iff_eq, Option.none_or, Option.elim_none]
        split
        next heq => rw [← heq, ← hentry, Option.elim_some]
        next => rfl
    · rw [hknown, lastRevision?, knownFiles_updateEntry, Std.ExtTreeSet.mem_insert,
        Std.LawfulEqCmp.compare_eq_iff_eq]
      cases lastRevision? file steps with
      | some revision => simp
      | none =>
        by_cases hfile : step.path = file <;> simp [hfile]

theorem exists_foldlM_apply_iff :
    (∃ s, steps.foldlM Step.apply r = .ok s) ↔
      ∀ step ∈ steps, (entryOf? step.path step.revision).isSome = true := by
  induction steps generalizing r with
  | nil => simp [pure, Except.pure]
  | cons step steps ih =>
    simp only [Outcome.foldlM_cons_eq_ok, Step.apply_eq_ok, List.forall_mem_cons,
      Option.isSome_iff_exists]
    -- Whether imports can be read does not depend on the resolver, which is any in the hypothesis.
    constructor
    · rintro ⟨s, t, ⟨entry, hentry, rfl⟩, hrest⟩
      exact ⟨⟨entry, hentry⟩, fun f hf => Option.isSome_iff_exists.mp (ih.mp ⟨s, hrest⟩ f hf)⟩
    · rintro ⟨⟨entry, hentry⟩, hall⟩
      obtain ⟨s, hs⟩ := (ih (r := (r.updateEntry step.path entry).resolver)).mpr fun f hf =>
        Option.isSome_iff_exists.mpr (hall f hf)
      exact ⟨s, _, ⟨entry, hentry, rfl⟩, hs⟩

/-- Runs that give every file the same last revision lead to the same resolver, and no run leaves calls
to derive. A run fails only where the imports of some revision cannot be read. -/
theorem run_confluent {steps' : List Step}
    (hlast : ∀ file, lastRevision? file steps = lastRevision? file steps') :
    (∀ r r', run steps = .ok r → run steps' = .ok r' → r = r') ∧
      (∀ n r, run (steps.take n) = .ok r → r.resolveAll = ⟨r, ∅⟩) ∧
      ((∃ r, run steps = .ok r) ↔
        ∀ step ∈ steps, (entryOf? step.path step.revision).isSome = true) := by
  refine ⟨fun r r' hr hr' => ?_, fun n r hr => ?_, exists_foldlM_apply_iff⟩
  · have hupdated := settled_empty.updated hr
    have hupdated' := settled_empty.updated hr'
    refine hupdated.settled.eq hupdated'.settled (Std.ExtTreeMap.ext_getElem? fun file => ?_)
      (Std.ExtTreeSet.ext_mem fun file => ?_)
    · rw [hupdated.index_eq, hupdated'.index_eq, hlast]
    · rw [hupdated.mem_knownFiles, hupdated'.mem_knownFiles, hlast]
  · exact (settled_empty.updated hr).settled.resolveAll_eq

end Parsers

/-- A caller is indexed before its callee in one run, and after two revisions of it in the other. -/
theorem run_confluent_of_late_callee :
    let caller := Step.updateWith "import b" "a.py" (.ofList [⟨"f", 2, 3, ["b.g"]⟩])
    let callee := Step.update "def g(): pass" "b.py"
    (∀ file, lastRevision? file [caller, callee] =
        lastRevision? file [.update "" "b.py", callee, caller]) ∧
      (∀ r r', run [caller, callee] = .ok r →
        run [.update "" "b.py", callee, caller] = .ok r' → r = r') ∧
      (∀ n r, run ([caller, callee].take n) = .ok r → r.resolveAll = ⟨r, ∅⟩) ∧
      ((∃ r, run [caller, callee] = .ok r) ↔
        ∀ step ∈ [caller, callee], (entryOf? step.path step.revision).isSome = true) := by
  intro caller callee
  have hlast (file : String) : lastRevision? file [caller, callee] =
      lastRevision? file [.update "" "b.py", callee, caller] := by
    by_cases hcaller : "a.py" = file
    · subst hcaller
      rfl
    · by_cases hcallee : "b.py" = file
      · subst hcallee
        rfl
      · simp [caller, callee, lastRevision?, Step.path, hcaller, hcallee]
  exact ⟨hlast, run_confluent hlast⟩

end Resolver

end Flowgraph

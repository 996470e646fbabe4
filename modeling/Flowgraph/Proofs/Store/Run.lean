import Flowgraph.Proofs.Graph.Drawing
import Flowgraph.Proofs.Outcome
import Flowgraph.Store.Basic

/-!
# Runs of a store

The edits and steps that a store goes through, and what each can make of it.
-/

namespace Flowgraph

namespace Store

variable {s t : Store} {path content : String} {calls : CallGraph} {entry : IndexEntry}

/-! ## Plans -/

section Plans

variable {u : Graph.Update} {known : Bool}

theorem plan_eq_patch_iff : s.plan path content calls = .patch u ↔
    s.graph.hasFile path = true ∧ ∃ old, s.callGraphs[path]? = some old ∧
      s.graph.applyDiff (old.diff calls) calls path = .ok u := by
  grind [plan]

theorem plan_eq_join_iff : s.plan path content calls = .join u ↔
    s.graph.hasFile path = false ∧ Relevance.isWorkflowFile path content = true ∧
      s.graph.mergeFile path (Graph.ofCallGraph calls path) = u := by
  grind [plan]

theorem plan_eq_remember_iff : s.plan path content calls = .remember known ↔
    s.graph.hasFile path = false ∧ Relevance.isWorkflowFile path content = false ∧
      s.isTracked path = known := by
  grind [plan]

theorem plan_eq_refuse_iff : s.plan path content calls = .refuse ↔
    s.graph.hasFile path = true ∧ ∀ old, s.callGraphs[path]? = some old →
      ∀ u, s.graph.applyDiff (old.diff calls) calls path ≠ .ok u := by
  grind [plan]

end Plans

/-! ## Steps -/

/-- An edit of the workspace: a file has a new content, or is gone. -/
inductive Edit where
  | update (path content : String)
  | remove (path : String)

section Parsers

variable [Parsers]

def Edit.apply (s : Store) : Edit → Except ImportError Store
  | update path content => (s.localUpdate path content).map (·.1)
  | remove path => .ok (s.removeFile path).store

/-- A step of a store: an edit, a classification, or an analysis of contents that is put in place. -/
inductive Step where
  | edit (e : Edit)
  | classify (entries : List Classification)
  | analyze (contents : Contents)

def Step.apply (s : Store) : Step → Except ImportError Store
  | edit e => e.apply s
  | classify entries => .ok (s.classify entries).1
  | analyze contents =>
    (localAnalysis contents).bind fun g => (s.installAnalysis g contents).map (·.1)

/-- Takes the steps one after another. -/
def run (s : Store) (steps : List Step) : Except ImportError Store := steps.foldlM Step.apply s

/-! ## Indexing -/

/-- The store with the entry, the content and the call graph of a file, and the same graph. -/
def withFile (s : Store) (path content : String) (calls : CallGraph) (entry : IndexEntry) : Store :=
  remember { s with resolver := (s.resolver.updateEntry path entry).resolver } path content calls

omit [Parsers] in
theorem index_eq_ok {i : Indexed} :
    s.index path content calls = .ok i ↔
      ∃ entry, IndexEntry.ofFile path content calls = .ok entry ∧
        i = ⟨s.withFile path content calls entry, (s.resolver.updateEntry path entry).affected⟩ := by
  simp only [index, Resolver.updateWith, Outcome.map_eq_ok, exists_exists_and_eq_and, withFile,
    eq_comm (b := i)]

theorem trackFile_eq_ok :
    s.trackFile path content = .ok t ↔
      ∃ entry, IndexEntry.ofFile path content (extract content path) = .ok entry ∧
        t = s.withFile path content (extract content path) entry := by
  rw [trackFile, Outcome.map_eq_ok]
  constructor
  · rintro ⟨i, hi, rfl⟩
    obtain ⟨entry, hentry, rfl⟩ := index_eq_ok.mp hi
    exact ⟨entry, hentry, rfl⟩
  · rintro ⟨entry, hentry, rfl⟩
    exact ⟨_, index_eq_ok.mpr ⟨entry, hentry, rfl⟩, rfl⟩

/-! ## Updates -/

/-- The store with a file kept and a graph in place in which the file has its new part, after the edges
that lead out of it and of the affected files have been drawn. -/
def committed (s : Store) (path content : String) (entry : IndexEntry) (g : Graph) : Store :=
  let change := s.resolver.updateEntry path entry
  { s.withFile path content (extract content path) entry with
    graph := g.spliceFiles change.resolver (change.affected.insert path).toList }

omit [Parsers] in
theorem store_foldl_spliceFile (files : List String) (p : Patched) :
    (files.foldl Patched.spliceFile p).store =
      { p.store with graph := p.store.graph.spliceFiles p.store.resolver files } := by
  induction files generalizing p with
  | nil => rfl
  | cons file files ih => exact ih (p.spliceFile file)

/-- What an update of a file to a content makes of a store. -/
inductive Updates (s : Store) (path content : String) : Store → Prop
  | unsupported (hlanguage : (Language.ofPath path).isSupported = false) : Updates s path content s
  | refused (hfile : s.graph.hasFile path = true)
      (hdiff : ∀ old, s.callGraphs[path]? = some old → ∀ u,
        s.graph.applyDiff (old.diff (extract content path)) (extract content path) path ≠ .ok u) :
      Updates s path content s
  | remembered (entry : IndexEntry) (hlanguage : (Language.ofPath path).isSupported = true)
      (hfile : s.graph.hasFile path = false)
      (hworkflow : Relevance.isWorkflowFile path content = false)
      (hentry : IndexEntry.ofFile path content (extract content path) = .ok entry) :
      Updates s path content (s.withFile path content (extract content path) entry)
  | patched (entry : IndexEntry) (old : CallGraph) (u : Graph.Update)
      (hlanguage : (Language.ofPath path).isSupported = true)
      (hfile : s.graph.hasFile path = true) (hold : s.callGraphs[path]? = some old)
      (hdiff : s.graph.applyDiff (old.diff (extract content path)) (extract content path) path = .ok u)
      (hentry : IndexEntry.ofFile path content (extract content path) = .ok entry) :
      Updates s path content (s.committed path content entry u.graph)
  | joined (entry : IndexEntry) (hlanguage : (Language.ofPath path).isSupported = true)
      (hfile : s.graph.hasFile path = false)
      (hworkflow : Relevance.isWorkflowFile path content = true)
      (hentry : IndexEntry.ofFile path content (extract content path) = .ok entry) :
      Updates s path content (s.committed path content entry
        (s.graph.mergeFile path (Graph.ofCallGraph (extract content path) path)).graph)

theorem commit_eq_ok {u : Graph.Update} {p : Patched}
    (h : s.commit path content (extract content path) u = .ok p) :
    ∃ entry, IndexEntry.ofFile path content (extract content path) = .ok entry ∧
      p.store = s.committed path content entry u.graph := by
  obtain ⟨i, hindex, rfl⟩ := Outcome.map_eq_ok.mp h
  obtain ⟨entry, hentry, rfl⟩ := index_eq_ok.mp hindex
  exact ⟨entry, hentry, by rw [store_foldl_spliceFile]; rfl⟩

theorem updates_of_localUpdate {result : Store × Option Patch}
    (h : s.localUpdate path content = .ok result) : s.Updates path content result.1 := by
  rw [localUpdate] at h
  cases hlanguage : (Language.ofPath path).isSupported with
  | false =>
    simp only [hlanguage, Bool.false_eq_true, if_false] at h
    cases h
    exact .unsupported hlanguage
  | true =>
    simp only [hlanguage, if_true] at h
    cases hplan : s.plan path content (extract content path) with
    | patch u =>
      obtain ⟨hfile, old, hold, hdiff⟩ := plan_eq_patch_iff.mp hplan
      simp only [hplan] at h
      obtain ⟨p, hp, rfl⟩ := Outcome.map_eq_ok.mp h
      obtain ⟨entry, hentry, heq⟩ := commit_eq_ok hp
      exact heq ▸ .patched entry old u hlanguage hfile hold hdiff hentry
    | join u =>
      obtain ⟨hfile, hworkflow, rfl⟩ := plan_eq_join_iff.mp hplan
      simp only [hplan] at h
      obtain ⟨p, hp, rfl⟩ := Outcome.map_eq_ok.mp h
      obtain ⟨entry, hentry, heq⟩ := commit_eq_ok hp
      exact heq ▸ .joined entry hlanguage hfile hworkflow hentry
    | remember known =>
      obtain ⟨hfile, hworkflow, -⟩ := plan_eq_remember_iff.mp hplan
      simp only [hplan] at h
      obtain ⟨i, hi, rfl⟩ := Outcome.map_eq_ok.mp h
      obtain ⟨entry, hentry, rfl⟩ := index_eq_ok.mp hi
      exact .remembered entry hlanguage hfile hworkflow hentry
    | refuse =>
      obtain ⟨hfile, hdiff⟩ := plan_eq_refuse_iff.mp hplan
      simp only [hplan] at h
      cases h
      exact .refused hfile hdiff

theorem updates_of_apply (h : (Edit.update path content).apply s = .ok t) :
    s.Updates path content t := by
  obtain ⟨result, hresult, rfl⟩ := Outcome.map_eq_ok.mp h
  exact updates_of_localUpdate hresult

theorem apply_of_localUpdate {patch : Option Patch} (h : s.localUpdate path content = .ok (t, patch)) :
    (Edit.update path content).apply s = .ok t :=
  Outcome.map_eq_ok.mpr ⟨(t, patch), h, rfl⟩

/-- An update succeeds where the imports of the content can be read. -/
theorem exists_apply_update
    (hentry : IndexEntry.ofFile path content (extract content path) = .ok entry) :
    ∃ t, (Edit.update path content).apply s = .ok t := by
  have hindex (s : Store) := (index_eq_ok (s := s)).mpr ⟨entry, hentry, rfl⟩
  suffices hupdate : ∃ result, s.localUpdate path content = .ok result by
    obtain ⟨result, hresult⟩ := hupdate
    exact ⟨_, Outcome.map_eq_ok.mpr ⟨result, hresult, rfl⟩⟩
  simp only [localUpdate]
  split
  · cases s.plan path content (extract content path) with
    | patch u | join u =>
      simp only [commit, hindex, Except.map]
      exact ⟨_, rfl⟩
    | remember known =>
      simp only [hindex, Except.map]
      exact ⟨_, rfl⟩
    | refuse => exact ⟨_, rfl⟩
  · exact ⟨_, rfl⟩

end Parsers

/-! ## Removals -/

/-- The graph without a file, after the edges that lead out of the affected files have been drawn. -/
def graphWithout (s : Store) (path : String) : Graph :=
  (s.graph.removeFile path).spliceFiles (s.resolver.removeFile path).resolver
    (s.resolver.removeFile path).affected.toList

theorem wellFormed_graphWithout (hg : s.graph.WellFormed) (hr : s.resolver.IsProper) (path : String) :
    (s.graphWithout path).WellFormed :=
  (Graph.Draws.spliceFiles (hg.removeFile path) (Resolver.isProper_removeFile hr path) _).wellFormed

/-- The store without a file and the edges that touch it, before any edge is drawn. -/
def withoutFile (s : Store) (path : String) : Patched where
  store := {
    graph := s.graph.removeFile path
    callGraphs := s.callGraphs.erase path
    contents := s.contents.erase path
    resolver := (s.resolver.removeFile path).resolver
    analyzed := s.analyzed.erase path }
  patch := { Patch.empty with
    nodesRemoved := (s.graph.fileNodes path).map (·.id)
    edgesRemoved := s.graph.edges.length - (s.graph.removeFile path).edges.length }

/-- The store without a file, before the flags are brought up to date. -/
def drawnWithout (s : Store) (path : String) : Patched :=
  (s.resolver.removeFile path).affected.toList.foldl Patched.spliceFile (s.withoutFile path)

theorem store_drawnWithout (s : Store) (path : String) :
    (s.drawnWithout path).store =
      { (s.withoutFile path).store with graph := s.graphWithout path } :=
  store_foldl_spliceFile _ _

theorem removeFile_eq (s : Store) (path : String) :
    s.removeFile path =
      if (s.drawnWithout path).patch.isEmpty = true then s.drawnWithout path
      else ⟨{ (s.drawnWithout path).store with
        graph := (s.drawnWithout path).store.graph.refreshEndpoints }, (s.drawnWithout path).patch⟩ :=
  rfl

theorem patch_removeFile (s : Store) (path : String) :
    (s.removeFile path).patch = (s.drawnWithout path).patch := by
  rw [removeFile_eq]
  split <;> rfl

/-- What a removal leaves of a store. -/
theorem store_removeFile (s : Store) (path : String) :
    ∃ g, (s.removeFile path).store = { s with
        graph := g
        callGraphs := s.callGraphs.erase path
        contents := s.contents.erase path
        resolver := (s.resolver.removeFile path).resolver
        analyzed := s.analyzed.erase path } ∧
      (g = s.graphWithout path ∨ g = (s.graphWithout path).refreshEndpoints) := by
  -- The flags are refreshed unless the patch is empty, and the rest is the same in both cases.
  rw [removeFile_eq]
  simp only [store_drawnWithout]
  split
  · exact ⟨_, store_drawnWithout s path, .inl rfl⟩
  · exact ⟨_, rfl, .inr rfl⟩

/-- What a removal leaves of the graph, told by its patch. -/
theorem graph_removeFile (s : Store) (path : String) :
    (s.removeFile path).store.graph =
      if (s.removeFile path).patch.isEmpty = true then s.graphWithout path
      else (s.graphWithout path).refreshEndpoints := by
  rw [patch_removeFile, removeFile_eq]
  split <;> simp only [store_drawnWithout]

theorem resolver_removeFile (s : Store) (path : String) :
    (s.removeFile path).store.resolver = (s.resolver.removeFile path).resolver := by
  obtain ⟨g, hstore, -⟩ := store_removeFile s path
  rw [hstore]

end Store

end Flowgraph

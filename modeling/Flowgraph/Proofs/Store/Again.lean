import Flowgraph.Proofs.Graph.Unchanged
import Flowgraph.Proofs.Resolver.Affected
import Flowgraph.Proofs.Store.InStep
import Flowgraph.Syntax.Parsers

/-!
# Saving twice

An update leaves the store in a state that the same update finds nothing to do in: the file is kept and
indexed by its content, none of its calls is missing, and all of them are drawn.
-/

namespace Flowgraph

namespace Store

variable {s t : Store} {path content : String} {entry : IndexEntry} {g : Graph}

/-! ## Current files -/

section Parsers

variable [Parsers]

/-- The store keeps a file by its content, and to index it once more changes nothing. -/
structure IsCurrent (s : Store) (path content : String) : Prop where
  callGraph_eq : s.callGraphs[path]? = some (extract content path)
  content_eq : s.contents[path]? = some content
  indexed : ∃ entry, IndexEntry.ofFile path content (extract content path) = .ok entry ∧
    s.resolver.updateEntry path entry = ⟨s.resolver, ∅⟩

namespace IsCurrent

theorem withGraph (hs : s.IsCurrent path content) (g : Graph) :
    IsCurrent { s with graph := g } path content :=
  ⟨hs.callGraph_eq, hs.content_eq, hs.indexed⟩

theorem index_eq (hs : s.IsCurrent path content) :
    s.index path content (extract content path) = .ok ⟨s, ∅⟩ := by
  obtain ⟨entry, hentry, hupdate⟩ := hs.indexed
  refine index_eq_ok.mpr ⟨entry, hentry, ?_⟩
  unfold withFile remember
  rw [hupdate, OrderedMap.insert_of_getElem? hs.callGraph_eq, OrderedMap.insert_of_getElem? hs.content_eq]

/-- A current file that the graph shows, or that is a workflow file, is drawn again and nothing else. -/
theorem localUpdate_of_drawn (hs : s.IsCurrent path content)
    (hlanguage : (Language.ofPath path).isSupported = true)
    (hm : s.graph.Mirrors path (extract content path))
    (hdrawn : s.graph.hasFile path = true ∨ Relevance.isWorkflowFile path content = true) :
    s.localUpdate path content = .ok ((Patched.spliceFile ⟨s, .empty⟩ path).store,
      some (Patched.spliceFile ⟨s, .empty⟩ path).patch) := by
  have hcommit : s.commit path content (extract content path) ⟨s.graph, .empty⟩ =
      .ok (Patched.spliceFile ⟨s, .empty⟩ path) := by
    refine Outcome.map_eq_ok.mpr ⟨⟨s, ∅⟩, hs.index_eq, ?_⟩
    rw [OrderedSet.toList_insert_empty, List.foldl_cons, List.foldl_nil]
  have hplan : s.plan path content (extract content path) = .patch ⟨s.graph, .empty⟩ ∨
      s.plan path content (extract content path) = .join ⟨s.graph, .empty⟩ := by
    cases hfile : s.graph.hasFile path with
    | true =>
      exact .inl (plan_eq_patch_iff.mpr ⟨hfile, _, hs.callGraph_eq, Graph.applyDiff_self _ _ _⟩)
    | false =>
      have hworkflow := hdrawn.resolve_left (Bool.eq_false_iff.mp hfile)
      -- A file without nodes that is shown by its content has no functions.
      have hnone : (extract content path).toList = [] := by
        by_contra hsome
        exact Bool.false_ne_true (hfile.symm.trans (hm.hasFile hsome))
      exact .inr (plan_eq_join_iff.mpr ⟨hfile, hworkflow, Graph.mergeFile_of_isEmpty hfile hnone⟩)
  rw [localUpdate, if_pos hlanguage]
  rcases hplan with hplan | hplan <;> simp only [hplan, hcommit, Except.map]

/-- A current file that stays out of the graph is left as it is. -/
theorem localUpdate_of_remembered (hs : s.IsCurrent path content)
    (hlanguage : (Language.ofPath path).isSupported = true) (hfile : s.graph.hasFile path = false)
    (hworkflow : Relevance.isWorkflowFile path content = false) :
    s.localUpdate path content = .ok (s, some .empty) := by
  have htracked : s.isTracked path = true := by
    rw [isTracked, Std.ExtTreeMap.contains_eq_isSome_getElem?, hs.callGraph_eq, Option.isSome_some]
  have hplan : s.plan path content (extract content path) = .remember true :=
    plan_eq_remember_iff.mpr ⟨hfile, hworkflow, htracked⟩
  rw [localUpdate, if_pos hlanguage]
  simp only [hplan, hs.index_eq, Except.map, if_true]

end IsCurrent

/-! ## After an update -/

theorem isCurrent_withFile (s : Store)
    (hentry : IndexEntry.ofFile path content (extract content path) = .ok entry) :
    (s.withFile path content (extract content path) entry).IsCurrent path content where
  callGraph_eq := by rw [getElem?_callGraphs_withFile, if_pos rfl]
  content_eq := by rw [getElem?_contents_withFile, if_pos rfl]
  indexed := ⟨entry, hentry, Resolver.updateEntry_updateEntry s.resolver path entry⟩

/-- The file has been drawn by the update already. -/
theorem spliceFile_committed (s : Store) (path content : String) (entry : IndexEntry)
    (hids : g.nodeIds.Nodup) :
    Patched.spliceFile ⟨s.committed path content entry g, .empty⟩ path =
      ⟨s.committed path content entry g, .empty⟩ := by
  have hpath : path ∈ ((s.resolver.updateEntry path entry).affected.insert path).toList := by
    rw [Std.ExtTreeSet.mem_toList]
    exact Std.ExtTreeSet.mem_insert_self
  have hdrawn := Graph.isDrawn_spliceFiles (r := (s.resolver.updateEntry path entry).resolver) hids hpath
  have hsplice : (s.committed path content entry g).graph.splice path
      ((s.committed path content entry g).resolver.callsFrom path).toList =
      ⟨(s.committed path content entry g).graph, 0, 0⟩ := hdrawn.splice_eq
  rw [Patched.spliceFile]
  simp only [hsplice]
  rfl

theorem InStep.localUpdate_committed (hs : s.InStep)
    (hlanguage : (Language.ofPath path).isSupported = true)
    (hentry : IndexEntry.ofFile path content (extract content path) = .ok entry)
    (hg : s.graph.Redrawn path (extract content path) g) :
    (s.committed path content entry g).localUpdate path content =
      .ok (s.committed path content entry g, some .empty) := by
  have hcurrent : (s.committed path content entry g).IsCurrent path content :=
    (isCurrent_withFile s hentry).withGraph _
  have hdraws := Graph.Draws.spliceFiles hg.wellFormed
    (Resolver.isProper_updateEntry hs.proper path entry)
    ((s.resolver.updateEntry path entry).affected.insert path).toList
  by_cases hdrawn : (s.committed path content entry g).graph.hasFile path = true ∨
      Relevance.isWorkflowFile path content = true
  · have hupdate := hcurrent.localUpdate_of_drawn hlanguage (hdraws.mirrors hg.mirrors) hdrawn
    rwa [spliceFile_committed s path content entry hg.wellFormed.nodup_nodeIds] at hupdate
  -- The content has no functions left, and is none of a workflow file.
  · rw [not_or, Bool.not_eq_true, Bool.not_eq_true] at hdrawn
    exact hcurrent.localUpdate_of_remembered hlanguage hdrawn.1 hdrawn.2

/-- In every state that is reached from a seed, an update keeps the content and the call graph of the
file, and the same update once more leaves the store as it is. It reports nothing, or a patch that is
empty. -/
theorem localUpdate_again {files : List (String × String)} {steps : List Step} {patch : Option Patch}
    (h : ((empty.seed files).bind fun s => s.run steps) = .ok s)
    (hsave : s.localUpdate path content = .ok (t, patch)) :
    t.localUpdate path content =
        .ok (t, if (Language.ofPath path).isSupported then some .empty else none) ∧
      ((Language.ofPath path).isSupported = true →
        t.contents[path]? = some content ∧ t.callGraphs[path]? = some (extract content path)) := by
  obtain ⟨u, hseed, hrun⟩ := Outcome.bind_eq_ok.mp h
  have hs := (inStep_seed hseed).run hrun
  cases hlanguage : (Language.ofPath path).isSupported with
  | false =>
    have hkept : t.localUpdate path content = .ok (t, none) := by
      simp only [localUpdate, hlanguage, Bool.false_eq_true, if_false]
    exact ⟨hkept, fun hsupported => absurd hsupported Bool.false_ne_true⟩
  | true =>
    rcases hs.updates_cases (updates_of_localUpdate hsave) with
      ⟨hnot, -⟩ | ⟨hfile, hworkflow, entry, hentry, rfl⟩ | ⟨entry, g, hentry, hredrawn, rfl⟩
    · rw [hlanguage] at hnot
      cases hnot
    · have hcurrent := isCurrent_withFile s hentry
      exact ⟨hcurrent.localUpdate_of_remembered hlanguage hfile hworkflow,
        fun _ => ⟨hcurrent.content_eq, hcurrent.callGraph_eq⟩⟩
    · have hcurrent := isCurrent_withFile s hentry
      exact ⟨hs.localUpdate_committed hlanguage hentry hredrawn,
        fun _ => ⟨hcurrent.content_eq, hcurrent.callGraph_eq⟩⟩

end Parsers

set_option maxRecDepth 100000 in
/-- An edge of the file is missing after the removal of another file, and the first of the two updates
brings it back. -/
theorem localUpdate_again_of_missing_edge :
    let callee := "OpenAI().chat()\ndef g(): pass"
    let caller := "OpenAI().chat()\nimport l\ndef r(): l.g()"
    let steps : List Step := [.edit (.update "l/__init__.py" callee), .edit (.update "a.py" caller),
      .edit (.update "l.py" "OpenAI().chat()"), .edit (.remove "l.py")]
    ∃ s t patch, ((empty.seed [("b.py", "")]).bind fun s => s.run steps) = .ok s ∧
      s.localUpdate "a.py" caller = .ok (t, some patch) ∧
      (s.graph.edges = [] ∧ t.graph.edges = [.unresolved "a.py::r" "l/__init__.py::g"]) ∧
      t.localUpdate "a.py" caller = .ok (t, some .empty) ∧ t.contents["a.py"]? = some caller ∧
      t.callGraphs["a.py"]? = some (extract caller "a.py") := by
  intro callee caller steps
  have hedges : ((((empty.seed [("b.py", "")]).bind fun s => s.run steps).bind
      fun s => (s.localUpdate "a.py" caller).map fun saved => (s, saved)).toOption.map fun p =>
        (p.1.graph.edges, p.2.1.graph.edges, p.2.2.isSome)) =
      some ([], [.unresolved "a.py::r" "l/__init__.py::g"], true) := by decide +kernel
  obtain ⟨s, ⟨t, patch⟩, hrun, hsave, heq⟩ := Outcome.exists_of_bind_pair hedges
  simp only [Prod.mk.injEq, Option.isSome_iff_exists] at heq
  obtain ⟨hbefore, hafter, patch, rfl⟩ := heq
  obtain ⟨hagain, hkept⟩ := localUpdate_again hrun hsave
  exact ⟨s, t, patch, hrun, hsave, ⟨hbefore, hafter⟩, hagain, hkept rfl⟩

end Store

end Flowgraph

import Flowgraph.Proofs.Graph.Reports
import Flowgraph.Proofs.Store.Updating
import Flowgraph.Syntax.Parsers

/-!
# Exact patches of a store

The patch that comes with an update or a removal of a file tells how the graph has changed, over all
files the edges of which have been drawn again.
-/

namespace Flowgraph

namespace Store

variable {s t : Store} {g : Graph} {p : Patched} {path content : String} {u : Graph.Update}

/-! ## Drawing -/

theorem Patched.reports_spliceFile (hids : p.store.graph.IdsRight) (hp : p.patch.Reports g p.store.graph)
    (path : String) : (p.spliceFile path).store.graph.IdsRight ∧
      (p.spliceFile path).patch.Reports g (p.spliceFile path).store.graph := by
  have hr := Graph.Retouches.splice hids path (p.store.resolver.callsFrom path).toList
  exact ⟨hr.idsRight hids, hp.retouch hr _ _⟩

theorem Patched.reports_foldl_spliceFile (hids : p.store.graph.IdsRight)
    (hp : p.patch.Reports g p.store.graph) (files : List String) :
    (files.foldl Patched.spliceFile p).store.graph.IdsRight ∧
      (files.foldl Patched.spliceFile p).patch.Reports g
        (files.foldl Patched.spliceFile p).store.graph := by
  induction files generalizing p with
  | nil => exact ⟨hids, hp⟩
  | cons file files ih =>
    obtain ⟨hids, hp⟩ := p.reports_spliceFile hids hp file
    exact ih hids hp

/-! ## Updates -/

/-- A change that an update plans reports what it makes of the graph. -/
theorem reports_plan [Parsers] (hs : s.graph.IdsRight)
    (h : s.plan path content (extract content path) = .patch u ∨
      s.plan path content (extract content path) = .join u) :
    u.graph.IdsRight ∧ u.patch.Reports s.graph u.graph := by
  have hplain := hasPlainNames_extract content path
  rcases plan_cases h with ⟨old, -, hdiff⟩ | ⟨hfile, rfl⟩
  · exact hs.reports_applyDiff hplain
      (fun _ => CallGraph.not_mem_addedFunctions_of_mem_removedFunctions) hdiff
  · refine hs.reports_mergeFile hfile (Graph.wellFormed_ofCallGraph hplain path).idsRight
      (Graph.depicts_ofCallGraph _ path).file_eq fun n hn => ?_
    exact ((Graph.depicts_ofCallGraph _ path).fresh n hn).pending_eq

/-- The patch of an update is exact. -/
theorem reports_of_localUpdate [Parsers] {p : Patch} (hs : s.graph.IdsRight)
    (h : s.localUpdate path content = .ok (t, some p)) : p.Reports s.graph t.graph := by
  generalize hpatch : some p = patch at h
  cases revises_of_localUpdate h with
  | unsupported | refused => cases hpatch
  | remembered entry =>
    split at hpatch <;> cases hpatch
    exact Patch.reports_empty s.graph
  | drawn entry u q hlanguage hplan hq =>
    cases hpatch
    obtain ⟨hids, hu⟩ := reports_plan hs hplan
    rw [hq]
    exact (Patched.reports_foldl_spliceFile hids hu _).2

/-! ## Removals -/

theorem reports_removeFile (hs : s.graph.IdsRight) (path : String) :
    (s.removeFile path).store.graph.IdsRight ∧
      (s.removeFile path).patch.Reports s.graph (s.removeFile path).store.graph := by
  have hdrawn := Patched.reports_foldl_spliceFile (p := s.withoutFile path) (hs.removeFile path)
    (hs.reports_removeFile path) (s.resolver.removeFile path).affected.toList
  rw [removeFile_eq]
  split
  next => exact hdrawn
  next hsome =>
    have hnodup := hdrawn.1.nodup_nodeIds
    refine ⟨hdrawn.1.congr (Graph.map_key_refreshEndpoints hnodup), ?_⟩
    exact hdrawn.2.refreshEndpoints hnodup (Bool.eq_false_iff.mpr hsome)

/-! ## Updates and removals -/

/-- Where every node has the id of its function, the patch of an update or a removal is exact, and an
update without a patch changes nothing. Neither the edges nor the baselines of the files matter. -/
theorem patch_reports_changes [Parsers] (hs : s.graph.IdsRight) (path : String) :
    (∀ content t p, s.localUpdate path content = .ok (t, some p) → p.Reports s.graph t.graph) ∧
      (∀ content t, s.localUpdate path content = .ok (t, none) → t.graph = s.graph) ∧
      (s.removeFile path).patch.Reports s.graph (s.removeFile path).store.graph :=
  ⟨fun _ _ _ => reports_of_localUpdate hs, fun _ _ => graph_eq_of_localUpdate,
    (reports_removeFile hs path).2⟩

set_option maxRecDepth 100000 in
/-- One function of a file takes the place of another, with its edge. -/
theorem patch_reports_changes_replaced :
    ∃ (s t : Store) (p : Patch), s.graph.IdsRight ∧
      s.graph.nodeIds = ["a.py::f", "a.py::g"] ∧
      s.localUpdate "a.py" "OpenAI().chat()\ndef f(): h()\ndef h(): pass" = .ok (t, some p) ∧
      p = ⟨["a.py::h"], ["a.py::g"], ["a.py::f"], 1, 1, ["a.py::h"], ["f"]⟩ ∧
      p.Reports s.graph t.graph := by
  obtain ⟨⟨s, t, patch⟩, hrun, hresult⟩ := Outcome.exists_of_map_toOption
    (f := fun r : Store × Store × Option Patch => (r.1.graph.nodeIds, r.2.2))
    (b := (["a.py::f", "a.py::g"],
      some ⟨["a.py::h"], ["a.py::g"], ["a.py::f"], 1, 1, ["a.py::h"], ["f"]⟩))
    (x := (empty.seed []).bind fun s =>
      (s.run [.edit (.update "a.py" "OpenAI().chat()\ndef f(): g()\ndef g(): pass")]).bind fun s =>
        (s.localUpdate "a.py" "OpenAI().chat()\ndef f(): h()\ndef h(): pass").map (s, ·))
    (by decide +kernel)
  obtain ⟨s₀, hseed, hrest⟩ := Outcome.bind_eq_ok.mp hrun
  obtain ⟨s₁, hsteps, hupdate⟩ := Outcome.bind_eq_ok.mp hrest
  obtain ⟨result, hupdate, heq⟩ := Outcome.map_eq_ok.mp hupdate
  cases heq
  obtain ⟨hids, hpatch⟩ := Prod.mk.inj hresult
  have hs := ((inStep_seed hseed).run hsteps).wellFormed.idsRight
  simp only at hpatch
  rw [hpatch] at hupdate
  exact ⟨s, t, _, hs, hids, hupdate, rfl, (patch_reports_changes hs "a.py").1 _ t _ hupdate⟩

end Store

end Flowgraph

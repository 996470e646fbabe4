import Flowgraph.Proofs.Store.Drawing
import Flowgraph.Syntax.Parsers

/-!
# Edges without a recorded call

An update of a file that stays out of the graph can change which calls of other files are recorded, and
draws none of them. This is the one way in which an edge between two files loses its recorded call.
-/

namespace Flowgraph

namespace Store

variable {s t : Store} {file function file' function' : String}

/-! ## Files that stay out of the graph -/

/-- Whether an edit updates a file that has no nodes and gets none. -/
def Edit.StaysOut (s : Store) : Edit → Prop
  | update path content =>
    s.graph.hasFile path = false ∧ Relevance.isWorkflowFile path content = false
  | remove _ => False

/-- Only an update of a file that stays out of the graph changes recorded calls without drawing them. -/
theorem Edit.not_draws_iff_staysOut {e : Edit}
    (hchanged : t.resolver.callsFrom file ≠ s.resolver.callsFrom file) :
    ¬ e.Draws s t file ↔ e.StaysOut s := by
  cases e with
  | update path content =>
    simp only [Draws, StaysOut, hchanged, or_true, and_true, not_or, Bool.not_eq_true, ne_eq,
      not_false_eq_true]
  | remove path => simp only [Draws, StaysOut, ne_eq, hchanged, not_false_eq_true, not_true_eq_false]

/-! ## Overlooked changes -/

section Parsers

variable [Parsers]

/-- Along the edits from `s` on, the calls of a file are not drawn, no call from a function of it to one
of another file is recorded, and both keep their nodes. -/
def StaysUnrecorded (file function file' function' : String) (s : Store) : List Edit → Prop
  | [] => True
  | e :: edits => ∃ t, e.apply s = .ok t ∧ ¬ e.Draws s t file ∧
      ¬ t.resolver.Records file function file' function' ∧ t.graph.Shows file function ∧
      t.graph.Shows file' function' ∧ StaysUnrecorded file function file' function' t edits

/-- Along the edits from `s` on, an update of a file that stays out of the graph takes the call behind
an edge off the record, and nothing makes up for it. -/
def Overlooked (file function file' function' : String) (s : Store) : List Edit → Prop
  | [] => False
  | e :: edits => ∃ t, e.apply s = .ok t ∧
      (e.StaysOut s ∧
          s.graph.hasEdge (Graph.nodeId file function) (Graph.nodeId file' function') = true ∧
          s.resolver.Records file function file' function' ∧
          ¬ t.resolver.Records file function file' function' ∧
          StaysUnrecorded file function file' function' t edits ∨
        Overlooked file function file' function' t edits)

theorem Edited.graph_eq_of_staysOut {e : Edit} (hs : s.Edited) (h : e.apply s = .ok t)
    (hout : e.StaysOut s) : t.graph = s.graph := by
  cases e with
  | update path content =>
    rcases hs.of_update h with ⟨hsame, -⟩ | ⟨hshown, -⟩
    · exact hsame
    · simp [hout.1, hout.2] at hshown
  | remove path => exact hout.elim

section Edges

variable (hplain : IsPlainName function) (hplain' : IsPlainName function') (hne : file' ≠ file)

include hplain hplain' hne

/-- An edge that has no recorded call after an edit has had none before, or has just been overlooked. -/
theorem Edited.hasEdge_and_not_records_iff {e : Edit} (hs : s.Edited) (h : e.apply s = .ok t) :
    t.graph.hasEdge (Graph.nodeId file function) (Graph.nodeId file' function') = true ∧
        ¬ t.resolver.Records file function file' function' ↔
      s.graph.hasEdge (Graph.nodeId file function) (Graph.nodeId file' function') = true ∧
        ¬ t.resolver.Records file function file' function' ∧
        (e.StaysOut s ∧ s.resolver.Records file function file' function' ∨
          ¬ s.resolver.Records file function file' function' ∧ ¬ e.Draws s t file ∧
            t.graph.Shows file function ∧ t.graph.Shows file' function') := by
  rw [hs.hasEdge_iff hplain hplain' hne h]
  by_cases hrecords : s.resolver.Records file function file' function'
  -- The call goes off the record, and so only an edit that stays out does not draw the file.
  · constructor
    · rintro ⟨⟨-, -, ⟨-, hnew⟩ | ⟨hdraws, hedge⟩⟩, hgone⟩
      · exact absurd hnew hgone
      · have hchanged : t.resolver.callsFrom file ≠ s.resolver.callsFrom file := fun hsame =>
          hgone ((Graph.records_congr hsame).mpr hrecords)
        exact ⟨hedge, hgone, .inl ⟨(Edit.not_draws_iff_staysOut hchanged).mp hdraws, hrecords⟩⟩
    · rintro ⟨hedge, hgone, ⟨hout, -⟩ | ⟨hnone, -⟩⟩
      · have hchanged : t.resolver.callsFrom file ≠ s.resolver.callsFrom file := fun hsame =>
          hgone ((Graph.records_congr hsame).mpr hrecords)
        obtain ⟨hcaller, hcallee⟩ := hs.inStep.wellFormed.shows_of_hasEdge hplain hplain' hedge
        rw [hs.graph_eq_of_staysOut h hout]
        exact ⟨⟨hcaller, hcallee, .inr ⟨(Edit.not_draws_iff_staysOut hchanged).mpr hout, hedge⟩⟩, hgone⟩
      · exact absurd hrecords hnone
  · grind

end Edges

/-! ## Runs -/

theorem Edited.hasEdge_and_not_records_iff_overlooked {edits : List Edit}
    (hplain : IsPlainName function) (hplain' : IsPlainName function') (hne : file' ≠ file)
    (hs : s.Edited) (h : edits.foldlM Edit.apply s = .ok t) :
    t.graph.hasEdge (Graph.nodeId file function) (Graph.nodeId file' function') = true ∧
        ¬ t.resolver.Records file function file' function' ↔
      (s.graph.hasEdge (Graph.nodeId file function) (Graph.nodeId file' function') = true ∧
          ¬ s.resolver.Records file function file' function' ∧
          StaysUnrecorded file function file' function' s edits) ∨
        Overlooked file function file' function' s edits := by
  -- The induction is on the edits from any edited store, whose edges may lack their calls already.
  induction edits generalizing s with
  | nil =>
    cases h
    simp [StaysUnrecorded, Overlooked]
  | cons e edits ih =>
    obtain ⟨u, hu, hrest⟩ := Outcome.foldlM_cons_eq_ok.mp h
    have hstep := hs.hasEdge_and_not_records_iff hplain hplain' hne hu
    rw [ih (hs.apply hu) hrest, StaysUnrecorded, Overlooked]
    simp only [hu, Except.ok.injEq, exists_eq_left']
    grind

/-- Every edge between two files is an unnamed one, and a call on record backs it unless an update of a
file that stays out of the graph has taken that call off the record and nothing has made up for it. -/
theorem records_iff_not_overlooked {edits : List Edit} {e : Edge} {m n : Node}
    (h : edits.foldlM Edit.apply empty = .ok t) (he : e ∈ t.graph.edges) (hm : m ∈ t.graph.nodes)
    (hn : n ∈ t.graph.nodes) (hsource : m.id = e.source) (htarget : n.id = e.target)
    (hfiles : n.source.file ≠ m.source.file) :
    e.label = Edge.unresolvedLabel ∧
      (t.resolver.Records m.source.file m.source.function n.source.file n.source.function ↔
        ¬ Overlooked m.source.file m.source.function n.source.file n.source.function empty edits) := by
  have ht : t.Edited :=
    Outcome.foldlM_preserves (fun _ _ _ happly hs => hs.apply happly) edited_empty h
  have hwf := ht.inStep.wellFormed
  refine ⟨by rw [ht.unnamed e he]; rfl, ?_⟩
  have hedge : t.graph.hasEdge (Graph.nodeId m.source.file m.source.function)
      (Graph.nodeId n.source.file n.source.function) = true := by
    rw [← hwf.id_eq m hm, ← hwf.id_eq n hn]
    exact Graph.hasEdge_iff.mpr ⟨e, he, hsource.symm, htarget.symm⟩
  have hiff := edited_empty.hasEdge_and_not_records_iff_overlooked (hwf.plain m hm) (hwf.plain n hn)
    hfiles h
  rw [and_iff_right hedge, or_iff_right fun hfirst => by cases hfirst.1] at hiff
  rw [← hiff, not_not]

end Parsers

set_option maxRecDepth 100000 in
/-- The edge from a caller to a callee that comes before it. -/
theorem records_iff_not_overlooked_of_callee_first :
    ∃ t, [Edit.update "l.py" "OpenAI().chat()\ndef g(): pass",
        .update "a.py" "OpenAI().chat()\nimport l\ndef r(): l.g()"].foldlM
          Edit.apply empty = .ok t ∧
      ∃ m ∈ t.graph.nodes, ∃ n ∈ t.graph.nodes, ∃ e ∈ t.graph.edges, m.id = e.source ∧
        n.id = e.target ∧ m.source = ⟨"a.py", 3, "r"⟩ ∧ n.source = ⟨"l.py", 2, "g"⟩ ∧
        e.label = Edge.unresolvedLabel ∧
        (t.resolver.Records "a.py" "r" "l.py" "g" ↔ ¬ Overlooked "a.py" "r" "l.py" "g" empty
          [.update "l.py" "OpenAI().chat()\ndef g(): pass",
            .update "a.py" "OpenAI().chat()\nimport l\ndef r(): l.g()"]) := by
  have hrun : ([Edit.update "l.py" "OpenAI().chat()\ndef g(): pass",
      .update "a.py" "OpenAI().chat()\nimport l\ndef r(): l.g()"].foldlM
        Edit.apply empty).toOption.map (·.graph) =
      some ⟨[⟨"l.py::g", "g", "step", ⟨"l.py", 2, "g"⟩, false, true, true, none⟩,
          ⟨"a.py::r", "r", "step", ⟨"a.py", 3, "r"⟩, true, false, true, none⟩],
        [.unresolved "a.py::r" "l.py::g"]⟩ := by
    decide +kernel
  obtain ⟨t, ht, hgraph⟩ := Outcome.exists_of_map_toOption hrun
  have hm : ⟨"a.py::r", "r", "step", ⟨"a.py", 3, "r"⟩, true, false, true, none⟩ ∈ t.graph.nodes := by
    simp [hgraph]
  have hn : ⟨"l.py::g", "g", "step", ⟨"l.py", 2, "g"⟩, false, true, true, none⟩ ∈ t.graph.nodes := by
    simp [hgraph]
  have he : Edge.unresolved "a.py::r" "l.py::g" ∈ t.graph.edges := by simp [hgraph]
  exact ⟨t, ht, _, hm, _, hn, _, he, rfl, rfl, rfl, rfl,
    records_iff_not_overlooked ht he hm hn rfl rfl (by decide)⟩

set_option maxRecDepth 100000 in
/-- The callee stands in the initial file of a package. Then a file comes that the import leads to from
now on, and that stays out of the graph. -/
theorem exists_edge_without_call :
    ∃ t, [Edit.update "l/__init__.py" "OpenAI().chat()\ndef g(): pass",
        .update "a.py" "OpenAI().chat()\nimport l\ndef r(): l.g()",
        .update "l.py" ""].foldlM Edit.apply empty = .ok t ∧
      Edge.unresolved "a.py::r" "l/__init__.py::g" ∈ t.graph.edges ∧
      t.graph.functionNodeId? "a.py" "r" = some "a.py::r" ∧
      t.graph.functionNodeId? "l/__init__.py" "g" = some "l/__init__.py::g" ∧
      ¬ t.resolver.Records "a.py" "r" "l/__init__.py" "g" := by
  have hrun : ([Edit.update "l/__init__.py" "OpenAI().chat()\ndef g(): pass",
      .update "a.py" "OpenAI().chat()\nimport l\ndef r(): l.g()",
      .update "l.py" ""].foldlM Edit.apply empty).toOption.map (fun t =>
        (t.graph.edges, t.graph.functionNodeId? "a.py" "r",
          t.graph.functionNodeId? "l/__init__.py" "g", t.resolver.calls.toList)) =
      some ([.unresolved "a.py::r" "l/__init__.py::g"], some "a.py::r", some "l/__init__.py::g",
        []) := by
    decide +kernel
  obtain ⟨t, ht, hresult⟩ := Outcome.exists_of_map_toOption hrun
  obtain ⟨hedges, hresult⟩ := Prod.mk.inj hresult
  obtain ⟨hcaller, hresult⟩ := Prod.mk.inj hresult
  obtain ⟨hcallee, hcalls⟩ := Prod.mk.inj hresult
  refine ⟨t, ht, hedges ▸ List.mem_singleton_self _, hcaller, hcallee, ?_⟩
  rintro ⟨c, hc, -⟩
  rw [← Std.ExtTreeSet.mem_toList, hcalls] at hc
  exact List.not_mem_nil hc

end Store

end Flowgraph

import Flowgraph.Proofs.Store.InStep
import Flowgraph.Syntax.Parsers

/-!
# Classifications over runs

A classified node stays as it is, its line apart, for as long as its function is there, and no node is
classified but by an entry that names it.
-/

namespace Flowgraph

namespace Store

variable {s t : Store} {path content : String} {n : Node}

/-! ## Edits -/

section Parsers

variable [Parsers]

/-- Whether an edit leaves a function where it is: its file is not removed, and an update of the file
still has it. -/
def Edit.Spares (file function : String) : Edit → Prop
  | update path content => file = path → (extract content path).contains function = true
  | remove path => file ≠ path

theorem InStep.retains_updates (hs : s.InStep) (h : s.Updates path content t) :
    s.graph.Retains t.graph ((Edit.update path content).Spares · ·) := by
  have hplain := hasPlainNames_extract content path
  cases h with
  | unsupported | refused | remembered => exact .refl s.graph
  | patched entry old u hlanguage hfile hold hdiff =>
    have hproper := Resolver.isProper_updateEntry hs.proper path entry
    refine (hs.wellFormed.idsRight.retains_applyDiff hplain (fun name hremoved => ?_) hdiff).trans
      (.spliceFiles (hs.wellFormed.applyDiff hplain hdiff) hproper _)
    exact (CallGraph.mem_removedFunctions.mp hremoved).2
  | joined entry hlanguage hfile =>
    have hproper := Resolver.isProper_updateEntry hs.proper path entry
    have hmerged := (Graph.addsEdges_mergeFile hs.wellFormed hfile hplain).wellFormed
    refine (Graph.retains_mergeFile hfile fun n hn => ?_).trans (.spliceFiles hmerged hproper _)
    exact ((Graph.depicts_ofCallGraph _ path).fresh n hn).pending_eq

theorem InStep.retains_removeFile (hs : s.InStep) (path : String) :
    s.graph.Retains (s.removeFile path).store.graph ((Edit.remove path).Spares · ·) := by
  have hwithout : s.graph.Retains (s.graphWithout path) ((Edit.remove path).Spares · ·) :=
    (hs.wellFormed.retains_removeFile path).trans (.spliceFiles (hs.wellFormed.removeFile path)
      (Resolver.isProper_removeFile hs.proper path) _)
  obtain ⟨g, hstore, rfl | rfl⟩ := store_removeFile s path
  · rw [hstore]
    exact hwithout
  · rw [hstore]
    exact hwithout.trans
      (.refreshEndpoints (wellFormed_graphWithout hs.wellFormed hs.proper path).nodup_nodeIds)

theorem InStep.retains_edit (hs : s.InStep) {e : Edit} (h : e.apply s = .ok t) :
    s.graph.Retains t.graph (e.Spares · ·) := by
  cases e with
  | update path content => exact hs.retains_updates (updates_of_apply h)
  | remove path =>
    cases h
    exact hs.retains_removeFile path

/-! ## Steps -/

/-- Whether a step leaves a function where it is. An analysis makes a new graph. -/
def Step.Spares (file function : String) : Step → Prop
  | edit e => e.Spares file function
  | classify _ => True
  | analyze _ => False

theorem InStep.kept (hs : s.InStep) {step : Step} (h : step.apply s = .ok t) (hn : n ∈ s.graph.nodes)
    (hdone : n.pending = false) (hspares : step.Spares n.source.file n.source.function) :
    ∃ line, n.moveTo line ∈ t.graph.nodes := by
  cases step with
  | edit e => exact (hs.retains_edit h).kept n hn hdone hspares
  | classify entries =>
    cases h
    refine ⟨n.source.line, ?_⟩
    simp only [Store.classify, Graph.nodes_classify hs.wellFormed.nodup_nodeIds]
    exact List.mem_map.mpr ⟨n, hn, Node.classifyFirst_of_not_pending hdone⟩
  | analyze contents => cases hspares

/-- How a node has come to be classified in a step. -/
theorem InStep.earned (hs : s.InStep) {step : Step} (h : step.apply s = .ok t)
    (hn : n ∈ t.graph.nodes) (hdone : n.pending = false) :
    ∃ m ∈ s.graph.nodes, m.id = n.id ∧ (m.pending = false ∧ n = m.moveTo n.source.line ∨
      ∃ entries c, step = .classify entries ∧ entries.find? (·.id == n.id) = some c ∧
        m.pending = true ∧ n = m.classify c) := by
  cases step with
  | edit e =>
    obtain ⟨m, hm, line, rfl⟩ := (hs.retains_edit h).earned n hn hdone
    exact ⟨m, hm, rfl, .inl ⟨hdone, rfl⟩⟩
  | classify entries =>
    cases h
    simp only [Store.classify, Graph.nodes_classify hs.wellFormed.nodup_nodeIds] at hn
    obtain ⟨m, hm, rfl⟩ := List.mem_map.mp hn
    refine ⟨m, hm, ?_⟩
    rcases m.classifyFirst_eq_or entries with heq | ⟨hpending, c, hc, heq⟩
    · rw [heq] at hdone ⊢
      exact ⟨rfl, .inl ⟨hdone, rfl⟩⟩
    · rw [heq]
      exact ⟨rfl, .inr ⟨entries, c, rfl, hc, hpending, rfl⟩⟩
  -- No node of an analysis is classified yet.
  | analyze contents =>
    rw [((covers_analyze h).isFresh n hn).pending_eq] at hdone
    cases hdone

/-! ## Runs -/

theorem InStep.kept_run (hs : s.InStep) {steps : List Step} (h : s.run steps = .ok t)
    (hn : n ∈ s.graph.nodes) (hdone : n.pending = false)
    (hspares : ∀ step ∈ steps, step.Spares n.source.file n.source.function) :
    ∃ line, n.moveTo line ∈ t.graph.nodes := by
  induction steps generalizing s n with
  | nil =>
    cases h
    exact ⟨n.source.line, hn⟩
  | cons step steps ih =>
    obtain ⟨u, hstep, hrest⟩ := Outcome.foldlM_cons_eq_ok.mp h
    obtain ⟨line, hmoved⟩ := hs.kept hstep hn hdone (hspares step List.mem_cons_self)
    obtain ⟨line', hkept⟩ := ih (hs.apply hstep) hrest hmoved hdone fun step' hstep' =>
      hspares step' (List.mem_cons_of_mem step hstep')
    exact ⟨line', hkept⟩

/-- From every state that is reached from a seed, a classified node stays what it is, on some line,
through all steps that leave its function where it is. A node is classified only by a step that
classifies it, and takes the first entry with its id. -/
theorem classified_of_run {files : List (String × String)} {steps : List Step}
    (h : ((empty.seed files).bind fun s => s.run steps) = .ok s) :
    (∀ later t, s.run later = .ok t → ∀ id n, s.graph.node? id = some n → n.pending = false →
      (∀ step ∈ later, step.Spares n.source.file n.source.function) →
      ∃ line, t.graph.node? id = some (n.moveTo line)) ∧
    ∀ (step : Step) t, step.apply s = .ok t → ∀ id n, t.graph.node? id = some n → n.pending = false →
      ∃ m, s.graph.node? id = some m ∧ (m.pending = false ∧ n = m.moveTo n.source.line ∨
        ∃ entries c, step = .classify entries ∧ entries.find? (·.id == id) = some c ∧
          m.pending = true ∧ n = m.classify c) := by
  obtain ⟨s₀, hseed, hrun⟩ := Outcome.bind_eq_ok.mp h
  have hs := (inStep_seed hseed).run hrun
  constructor
  · intro later t hlater id n hid hdone hspares
    obtain ⟨hn, rfl⟩ := hs.wellFormed.idsRight.node?_eq_some.mp hid
    obtain ⟨line, hmoved⟩ := hs.kept_run hlater hn hdone hspares
    have ht := hs.run hlater
    exact ⟨line, ht.wellFormed.idsRight.node?_eq_some.mpr ⟨hmoved, rfl⟩⟩
  · intro step t hstep id n hid hdone
    have ht := hs.apply hstep
    obtain ⟨hn, rfl⟩ := ht.wellFormed.idsRight.node?_eq_some.mp hid
    obtain ⟨m, hm, hid, hcase⟩ := hs.earned hstep hn hdone
    exact ⟨m, hs.wellFormed.idsRight.node?_eq_some.mpr ⟨hm, hid⟩, hcase⟩

end Parsers

set_option maxRecDepth 100000 in
/-- Two entries name a node, which takes the first. It moves with its function, and stays when another
file goes. -/
theorem classified_of_run_moved :
    ∃ s t u : Store,
      ((empty.seed [("b.py", "def h(): pass")]).bind fun s =>
        s.run [.edit (.update "a.py" "OpenAI().chat()\ndef f(): pass")]) = .ok s ∧
      (Step.classify [⟨"a.py::f", "llm", "F", none⟩, ⟨"a.py::f", "tool", "G", none⟩]).apply s = .ok t ∧
      t.run [.edit (.update "a.py" "OpenAI().chat()\n\ndef f(): pass"), .edit (.remove "b.py")] = .ok u ∧
      (∃ m, s.graph.node? "a.py::f" = some m ∧ m.pending = true ∧
        t.graph.node? "a.py::f" = some (m.classify ⟨"a.py::f", "llm", "F", none⟩)) ∧
      ∃ line, u.graph.node? "a.py::f" =
        some (Node.moveTo ⟨"a.py::f", "F", "llm", ⟨"a.py", 2, "f"⟩, true, true, false, none⟩ line) := by
  obtain ⟨⟨s, t, u⟩, hrun, hnodes⟩ := Outcome.exists_of_map_toOption
    (f := fun r : Store × Store × Store => (r.1.graph.node? "a.py::f", r.2.1.graph.node? "a.py::f"))
    (b := (some ⟨"a.py::f", "f", "step", ⟨"a.py", 2, "f"⟩, true, true, true, none⟩,
      some ⟨"a.py::f", "F", "llm", ⟨"a.py", 2, "f"⟩, true, true, false, none⟩))
    (x := ((empty.seed [("b.py", "def h(): pass")]).bind fun s =>
        s.run [.edit (.update "a.py" "OpenAI().chat()\ndef f(): pass")]).bind fun s =>
      ((Step.classify [⟨"a.py::f", "llm", "F", none⟩, ⟨"a.py::f", "tool", "G", none⟩]).apply s).bind
        fun t => (t.run [.edit (.update "a.py" "OpenAI().chat()\n\ndef f(): pass"),
          .edit (.remove "b.py")]).map fun u => (s, t, u))
    (by decide +kernel)
  obtain ⟨s', hs, hrest⟩ := Outcome.bind_eq_ok.mp hrun
  obtain ⟨t', ht, hrest⟩ := Outcome.bind_eq_ok.mp hrest
  obtain ⟨u', hu, heq⟩ := Outcome.map_eq_ok.mp hrest
  cases heq
  obtain ⟨hpending, hdone⟩ := Prod.mk.inj hnodes
  refine ⟨s, t, u, hs, ht, hu, ?_, ?_⟩
  · obtain ⟨m, hm, hcase⟩ := (classified_of_run hs).2 _ t ht _ _ hdone rfl
    obtain rfl := Option.some.inj (hpending.symm.trans hm)
    rcases hcase with ⟨hfalse, -⟩ | ⟨entries, c, heq, hfind, -, hn⟩
    · cases hfalse
    · cases heq
      cases hfind
      exact ⟨_, hm, rfl, hdone⟩
  · have hrun' : ((empty.seed [("b.py", "def h(): pass")]).bind fun s =>
        s.run [.edit (.update "a.py" "OpenAI().chat()\ndef f(): pass"),
          .classify [⟨"a.py::f", "llm", "F", none⟩, ⟨"a.py::f", "tool", "G", none⟩]]) = .ok t := by
      obtain ⟨s₀, hseed, hsteps⟩ := Outcome.bind_eq_ok.mp hs
      obtain ⟨s₁, hupdate, heq⟩ := Outcome.foldlM_cons_eq_ok.mp hsteps
      cases heq
      exact Outcome.bind_eq_ok.mpr ⟨s₀, hseed, Outcome.foldlM_cons_eq_ok.mpr
        ⟨s, hupdate, Outcome.foldlM_cons_eq_ok.mpr ⟨t, ht, rfl⟩⟩⟩
    refine (classified_of_run hrun').1 _ u hu _ _ hdone rfl fun step hstep => ?_
    simp only [List.mem_cons, List.not_mem_nil, or_false] at hstep
    rcases hstep with rfl | rfl
    · exact fun _ => by decide +kernel
    · unfold Step.Spares Edit.Spares
      decide

end Store

end Flowgraph

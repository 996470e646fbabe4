import Flowgraph.Proofs.Engine.Completion
import Flowgraph.Proofs.Engine.Deeds
import Flowgraph.Proofs.Store.Unchanged
import Flowgraph.Syntax.Parsers

/-!
# What renderers see

Renderers always see the graph of the store. They are told of a handled change of a file once if nodes
or edges have come or gone with it, and otherwise not at all.
-/

namespace Flowgraph

/-! ## Reported patches -/

/-- The patch that an effect reports of a file, with the graph after it. -/
def Effect.patchOf? (path : String) : Effect → Option (Patch × Graph)
  | emit (.graphPatched path' patch graph) => if path' = path then some (patch, graph) else none
  | _ => none

namespace Turn

variable {t : Turn} {f : Engine → Turn} {path : String}

/-- The patches that have been reported of a file. -/
def patchesOf (path : String) (t : Turn) : List (Patch × Graph) :=
  t.effects.filterMap (Effect.patchOf? path)

theorem patchesOf_andThen (ht : t.failure = none) :
    (t.andThen f).patchesOf path = t.patchesOf path ++ (f t.engine).patchesOf path := by
  rw [andThen_of_failure_eq_none ht, patchesOf, List.filterMap_append]
  rfl

theorem patchesOf_andThen_of_eq_nil (hf : ∀ e, (f e).patchesOf path = []) :
    (t.andThen f).patchesOf path = t.patchesOf path := by
  cases ht : t.failure with
  | none => rw [patchesOf_andThen ht, hf, List.append_nil]
  | some failure => simp only [andThen, ht]

theorem patchesOf_forEach_of_eq_nil {α : Type} {g : α → Engine → Turn} {items : List α}
    (hg : ∀ a ∈ items, ∀ e, (g a e).patchesOf path = []) :
    (t.forEach items g).patchesOf path = t.patchesOf path := by
  induction items generalizing t with
  | nil => rfl
  | cons a items ih =>
    obtain ⟨hfirst, hrest⟩ := List.forall_mem_cons.mp hg
    exact (ih hrest).trans (patchesOf_andThen_of_eq_nil hfirst)

end Turn

namespace Engine

variable {read : String → Option String} {now : Nat} {e e' : Engine} {path : String}
  {before after : Store} {seen : List Occurrence} {message : Message} {t : Turn}

theorem patchesOf_startAnalysis (reason : String) (e : Engine) :
    (e.startAnalysis reason).patchesOf path = [] := by
  rw [startAnalysis]
  split
  · rfl
  · simp only
    split <;> rfl

theorem patchesOf_handleInactive (e : Engine) : (e.handleInactive now).patchesOf path = [] := by
  rw [handleInactive, Turn.patchesOf_forEach_of_eq_nil fun _ _ _ => rfl]
  rfl

theorem patchesOf_handleBatch (e : Engine) : (e.handleBatch now).patchesOf path = [] := by
  rw [handleBatch]
  split
  · rfl
  · simp only
    split <;> rfl

theorem patchesOf_applyPatch (path' : String) (patch : Patch) (e : Engine) :
    (e.applyPatch now path' patch).patchesOf path =
      if path' = path then [(patch, e.store.graph)] else [] := by
  rw [applyPatch, Turn.patchesOf_andThen_of_eq_nil fun _ => rfl]
  by_cases heq : path' = path <;> simp [Turn.patchesOf, Turn.make, Effect.patchOf?, heq]

/-- What is reported of a file after an update of it. -/
def reported (patch : Option Patch) (g : Graph) : List (Patch × Graph) :=
  match patch with
  | some p => if p.isEmpty then [] else [(p, g)]
  | none => []

theorem patchesOf_followUpdate (path' : String) (patch : Option Patch) (e : Engine) :
    (e.followUpdate now path' patch).patchesOf path =
      if path' = path then reported patch e.store.graph else [] := by
  cases patch with
  | some patch =>
    simp only [followUpdate, reported]
    split
    next => rw [ite_self]; rfl
    next => exact patchesOf_applyPatch path' patch e
  | none =>
    simp only [followUpdate, reported, ite_self]
    split
    · exact patchesOf_startAnalysis _ _
    · rfl

theorem patchesOf_updateFile_of_ne [Parsers] {path' : String} (hne : path' ≠ path) (e : Engine) :
    (e.updateFile read now path').patchesOf path = [] := by
  rw [updateFile]
  split
  · rfl
  · split
    · rfl
    · rw [Turn.patchesOf_andThen rfl, patchesOf_followUpdate, if_neg hne]
      rfl

theorem patchesOf_forEach_updateFile [Parsers] {paths : List String} (hpath : path ∉ paths) :
    (t.forEach paths (updateFile read now)).patchesOf path = t.patchesOf path :=
  Turn.patchesOf_forEach_of_eq_nil fun _ hother =>
    patchesOf_updateFile_of_ne (ne_of_mem_of_not_mem hother hpath)

theorem patchesOf_deleteFile (path : String) (e : Engine) :
    (e.deleteFile path).patchesOf path =
      reported (e.store.removeFile path).patch (e.store.removeFile path).store.graph := by
  simp only [deleteFile, reported]
  split
  · rfl
  · simp [Turn.patchesOf, Turn.make, Effect.patchOf?]

/-! ## Handled changes -/

/-- A change of a file that the engine handles when it hears a message, with the stores before and after
it: a deletion, or an update to the text that is read, once the files that are due earlier have been
updated. -/
inductive Handles [Parsers] (read : String → Option String) (now : Nat) (e : Engine) :
    Message → String → Store → Store → Prop
  | deleted (path : String) :
      Handles read now e (.change ⟨path, .delete⟩) path e.store (e.store.removeFile path).store
  | settled (done : List String) (path : String) (todo : List String) (before after : Store)
      (hdue : e.debounce.due now = done ++ path :: todo)
      (hbefore : done.foldlM (reread read) e.store = .ok before)
      (hafter : reread read before path = .ok after) :
      Handles read now e .deadline path before after

/-- A change from `g` to `h` is reported once if a node or an edge has come or gone, with the graph that
it has led to, and otherwise not at all. -/
structure Announces (g h : Graph) (reports : List (Patch × Graph)) : Prop where
  once : ¬ g.SameParts h → ∃ patch, reports = [(patch, h)]
  never : g.SameParts h → reports = []

theorem announces_reported {g h : Graph} {patch : Patch}
    (hsame : patch.isEmpty = true ↔ g.SameParts h) : Announces g h (reported (some patch) h) := by
  rw [reported]
  split
  next hempty => exact ⟨fun hchanged => absurd (hsame.mp hempty) hchanged, fun _ => rfl⟩
  next hsome => exact ⟨fun _ => ⟨patch, rfl⟩, fun hunchanged => absurd (hsame.mpr hunchanged) hsome⟩

theorem announces_nil (g : Graph) : Announces g g [] where
  once hchanged := absurd ⟨fun _ => .rfl, fun _ => .rfl⟩ hchanged
  never _ := rfl

variable [Parsers]

theorem announces_updateFile (he : e.store.InStep) (h : reread read e.store path = .ok after) :
    Announces e.store.graph after.graph ((e.updateFile read now path).patchesOf path) := by
  rw [reread] at h
  rw [updateFile]
  cases hread : read path with
  | none =>
    simp only [hread] at h
    cases h
    exact announces_nil e.store.graph
  | some content =>
    simp only [hread] at h
    obtain ⟨⟨store, patch⟩, hupdate, rfl⟩ := Outcome.map_eq_ok.mp h
    simp only [hupdate]
    rw [Turn.patchesOf_andThen rfl, patchesOf_followUpdate, if_pos rfl]
    cases patch with
    | some patch => exact announces_reported (he.isEmpty_localUpdate_iff hupdate)
    | none =>
      rw [Store.graph_eq_of_localUpdate hupdate]
      exact announces_nil e.store.graph

theorem inStep_of_reread (hs : before.InStep) (h : reread read before path = .ok after) :
    after.InStep := by
  rw [reread] at h
  split at h
  · cases h
    exact hs
  · exact hs.edit h

/-- When the engine wakes, every file that is due is updated once, after those before it. -/
theorem announces_wake (he : e.store.InStep) {done todo : List String}
    (hdue : e.debounce.due now = done ++ path :: todo)
    (hbefore : done.foldlM (reread read) e.store = .ok before)
    (hafter : reread read before path = .ok after) (hdone : (e.wake read now).failure = none) :
    Announces before.graph after.graph ((e.wake read now).patchesOf path) := by
  obtain ⟨hother, -⟩ := List.nodup_cons.mp (List.nodup_middle.mp (hdue ▸ Deadlines.nodup_due))
  rw [List.mem_append, not_or] at hother
  have hstart : Settles read e.store (e.debounce.later now) []
      (.quiet { e with debounce := e.debounce.later now }) := settles_quiet rfl rfl
  have hsettled := Turn.failure_eq_none_of_andThen (Turn.failure_eq_none_of_andThen hdone)
  rw [wake, Turn.patchesOf_andThen_of_eq_nil patchesOf_handleBatch,
    Turn.patchesOf_andThen_of_eq_nil patchesOf_handleInactive]
  rw [handleSettled, hdue, Turn.forEach, List.foldl_append, List.foldl_cons, ← Turn.forEach,
    ← Turn.forEach] at hsettled ⊢
  have hfirst := Turn.failure_eq_none_of_andThen (Turn.failure_eq_none_of_forEach todo hsettled)
  have hstore := (hstart.forEach_updateFile hfirst).store_eq
  rw [List.nil_append, hbefore, Except.ok.injEq] at hstore
  subst hstore
  -- The other files that are due report nothing of this one.
  rw [patchesOf_forEach_updateFile hother.2, Turn.patchesOf_andThen hfirst,
    patchesOf_forEach_updateFile hother.1]
  refine announces_updateFile ?_ hafter
  exact Outcome.foldlM_preserves (fun _ _ _ happly hs => inStep_of_reread hs happly) he hbefore

theorem announces_step (he : e.store.InStep) (h : e.Handles read now message path before after)
    (hdone : (e.step read now message).failure = none) :
    Announces before.graph after.graph ((e.step read now message).patchesOf path) := by
  cases h with
  | deleted path =>
    change Announces _ _ ((e.deleteFile path).patchesOf path)
    rw [patchesOf_deleteFile]
    exact announces_reported (he.isEmpty_removeFile_iff path)
  | settled done path todo before after hdue hbefore hafter =>
    exact announces_wake he hdue hbefore hafter hdone

/-! ## Published graphs -/

/-- The store is in step, and renderers see its graph. -/
structure Shown (e : Engine) : Prop where
  inStep : e.store.InStep
  published_eq : e.published = e.store.graph

/-- What every deed keeps: where the graph is not published anew, it has not changed. -/
theorem Shown.deed (he : e.Shown) (h : e.Deed textualGraphs read now seen e') : e'.Shown := by
  have hupdated {path content : String} {store : Store} {patch : Option Patch}
      (hupdate : e.store.localUpdate path content = .ok (store, patch)) : store.InStep :=
    he.inStep.edit (Store.apply_of_localUpdate hupdate)
  have hunpatched {path content : String} {store : Store}
      (hupdate : e.store.localUpdate path content = .ok (store, none)) :
      e.published = store.graph :=
    he.published_eq.trans (Store.graph_eq_of_localUpdate hupdate).symm
  cases h with
  | aside | calmed | flushed | requested => exact ⟨he.inStep, he.published_eq⟩
  | forgotten path hempty =>
    exact ⟨he.inStep.removeFile path,
      he.published_eq.trans (Store.graph_eq_of_isEmpty_removeFile hempty).symm⟩
  | deleted path => exact ⟨he.inStep.removeFile path, rfl⟩
  | refreshed path content store patch hread hupdate => exact ⟨hupdated hupdate, rfl⟩
  | patched path content store patch hread hupdate => exact ⟨hupdated hupdate, rfl⟩
  | ignored path content store hread hupdate => exact ⟨hupdated hupdate, hunpatched hupdate⟩
  | abandoned path content store hread hupdate => exact ⟨hupdated hupdate, hunpatched hupdate⟩
  | unclassified entries hids =>
    exact ⟨he.inStep.classify entries,
      he.published_eq.trans (Graph.graph_classify_of_ids_eq_nil hids).symm⟩
  | classified entries => exact ⟨he.inStep.classify entries, rfl⟩
  | installed reason files result store stale hgraph hinstall =>
    exact ⟨he.inStep.installAnalysis (textualGraphs_iff.mp hgraph) hinstall, rfl⟩

end Engine

/-! ## Runs -/

namespace Loop

variable {timing : Timing} {s : Store} {l : Loop} {rounds : List Round}

/-- After every round of a run from an empty or seeded store, renderers see the graph of the store. A
change of a file that is handled in the next round is reported once, with the graph after it, if node
ids or edges have come or gone, and not at all otherwise. -/
theorem published_eq_and_announces [Parsers] (h : Run textualGraphs ⟨.start timing s, []⟩ rounds l)
    (hs : s = .empty ∨ ∃ files, Store.empty.seed files = .ok s) :
    l.engine.published = l.engine.store.graph ∧
      ∀ r m, l.Takes textualGraphs r m → ∀ path before after,
        l.engine.Handles r.read r.now r.message path before after →
          (¬ before.graph.SameParts after.graph →
            ∃ patch, r.turn.patchesOf path = [(patch, after.graph)]) ∧
          (before.graph.SameParts after.graph → r.turn.patchesOf path = []) := by
  have hshown : l.engine.Shown := by
    refine h.preserves (I := fun _ e => e.Shown) (fun log e read now seen e' he hdeed => he.deed hdeed)
      ?_
    exact ⟨(Store.consistent_of_seeded hs).1.inStep, rfl⟩
  refine ⟨hshown.published_eq, fun r m hround path before after hhandles => ?_⟩
  have hannounces : Engine.Announces before.graph after.graph (r.turn.patchesOf path) := by
    cases hround with
    | unasked e jobs now read message hmessage hdone =>
      exact Engine.announces_step hshown.inStep hhandles hdone
    | answer e before' job after' now read message hjob hdone =>
      exact Engine.announces_step hshown.inStep hhandles hdone
  exact ⟨hannounces.once, hannounces.never⟩

set_option maxRecDepth 100000 in
/-- A file that has been drawn is edited, and one more function of it comes with an edge. -/
theorem published_eq_and_announces_edited :
    ∃ rounds l r m after patch, Run textualGraphs ⟨.start ⟨500, 200, 5000, 1000⟩ .empty, []⟩ rounds l ∧
      l.engine.published = l.engine.store.graph ∧ l.engine.published.nodeIds = ["a.py::g"] ∧
      l.Takes textualGraphs r m ∧
      l.engine.Handles r.read r.now r.message "a.py" l.engine.store after ∧
      after.graph.nodeIds = ["a.py::g", "a.py::h"] ∧
      r.turn.patchesOf "a.py" = [(patch, after.graph)] := by
  let edited (_ : String) : Option String := some "OpenAI().chat()\ndef g(): h()\ndef h(): pass"
  have hcomputed : ((hears ⟨.start ⟨500, 200, 5000, 1000⟩ .empty, []⟩
      (fun _ => some "OpenAI().chat()\ndef g(): pass")
      [(0, .change ⟨"a.py", .create⟩), (200, .deadline), (300, .change ⟨"a.py", .modify⟩)]).bind fun l =>
      (l.hear 800 edited .deadline).bind fun _ =>
        (Engine.reread edited l.engine.store "a.py").toOption.map fun after =>
          (l.engine.debounce.due 800, l.engine.published.nodeIds, l.engine.store.graph.nodeIds,
            after.graph.nodeIds)) =
      some (["a.py"], ["a.py::g"], ["a.py::g"], ["a.py::g", "a.py::h"]) := by
    decide +kernel
  obtain ⟨l, hl, hcomputed⟩ := Option.bind_eq_some_iff.mp hcomputed
  obtain ⟨m, hm, hcomputed⟩ := Option.bind_eq_some_iff.mp hcomputed
  obtain ⟨after, hafter, hcomputed⟩ := Outcome.exists_of_map_toOption hcomputed
  simp only [Prod.mk.injEq] at hcomputed
  obtain ⟨hdue, hpublished, hbefore, hnodes⟩ := hcomputed
  obtain ⟨rounds, hrun, -⟩ := exists_run_of_hears textualGraphs hl (by
    simp only [List.forall_mem_cons]
    exact ⟨.change _, .deadline, .change _, nofun⟩)
  have hround := takes_of_hear textualGraphs hm .deadline
  have hhandles : l.engine.Handles edited 800 .deadline "a.py" l.engine.store after :=
    .settled [] "a.py" [] l.engine.store after hdue rfl hafter
  obtain ⟨hshown, hannounces⟩ := published_eq_and_announces hrun (.inl rfl)
  obtain ⟨patch, hpatch⟩ := (hannounces _ m hround "a.py" l.engine.store after hhandles).1 fun hsame => by
    have hnew := (hsame.1 "a.py::h").mp (hnodes ▸ by decide)
    rw [hbefore] at hnew
    exact absurd hnew (by decide)
  exact ⟨rounds, l, _, m, after, patch, hrun, hshown, hpublished, hround, hhandles, hnodes, hpatch⟩

end Loop

end Flowgraph

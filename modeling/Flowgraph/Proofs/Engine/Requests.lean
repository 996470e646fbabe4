import Flowgraph.Proofs.Engine.Completion
import Flowgraph.Proofs.Engine.Deeds
import Flowgraph.Proofs.Store.Pending
import Flowgraph.Syntax.Parsers

/-!
# No pending node is forgotten

From when a pending node comes into the graph, it waits in the batch until the batch is sent off, and is
then part of a request.
-/

namespace Flowgraph

/-! ## Requests -/

namespace Occurrence

/-- Whether a classifier is asked for a node of a file. -/
def Requests (file id : String) (o : Occurrence) : Prop :=
  ∃ request f, o = .effect (.start (.classify request)) ∧ request[file]? = some f ∧ id ∈ f.nodeIds

/-- Whether a node is put into the graph: a patch adds it, or an analysis replaces all nodes. -/
def Brings (id : String) : Occurrence → Prop
  | effect (.emit (.graphPatched _ patch _)) => id ∈ patch.nodesAdded
  | effect (.emit (.analysisCompleted ..)) => True
  | _ => False

theorem not_brings_of_isAside {o : Occurrence} (h : o.isAside = true) (id : String) :
    ¬ o.Brings id := by
  unfold Brings
  split
  · cases h
  · cases h
  · exact not_false

end Occurrence

namespace Engine

/-- A node waits in the batch, or has been asked for since it was put into the graph. -/
def Attends (log : List (Nat × Occurrence)) (e : Engine) (n : Node) : Prop :=
  n.id ∈ e.batcher.pending.getD n.source.file ∅ ∨
    Since (fun o => o.2.Requests n.source.file n.id) (fun o => o.2.Brings n.id) log

variable [Parsers]

/-- Every pending node is attended to. -/
structure Attentive (log : List (Nat × Occurrence)) (e : Engine) : Prop where
  consistent : e.store.Consistent
  attends : ∀ n ∈ e.store.graph.nodes, n.pending = true → e.Attends log n

variable {graphs : Contents → Graph → Prop} {read : String → Option String} {now : Nat}
  {log : List (Nat × Occurrence)} {seen : List Occurrence} {e e' : Engine} {n : Node}

/-- A node that was pending is still attended to where neither it is brought anew nor its file leaves the
batch. -/
theorem Attentive.attends_of_wasPending (he : Attentive log e)
    (hn : e.store.graph.WasPending n) (hseen : ∀ o ∈ seen, ¬ o.Brings n.id)
    (hbatch : n.id ∈ e.batcher.pending.getD n.source.file ∅ →
      n.id ∈ e'.batcher.pending.getD n.source.file ∅) :
    e'.Attends (log ++ seen.map (now, ·)) n := by
  obtain ⟨m, hm, hid, hfile, hpending⟩ := hn
  have hattends := he.attends m hm hpending
  rw [Attends, hid, hfile] at hattends
  exact hattends.imp hbatch fun hsince => hsince.append (List.forall_mem_map.mpr hseen)

/-- A deed that leaves the pending nodes and the batch alone. -/
theorem Attentive.frame (he : Attentive log e) (hconsistent : e'.store.Consistent)
    (hseen : ∀ o ∈ seen, ∀ id, ¬ o.Brings id) (hbatch : e'.batcher = e.batcher)
    (hpending : ∀ n ∈ e'.store.graph.nodes, n.pending = true → e.store.graph.WasPending n) :
    Attentive (log ++ seen.map (now, ·)) e' where
  consistent := hconsistent
  attends n hn hwaits := he.attends_of_wasPending (hpending n hn hwaits)
    (fun o ho => hseen o ho n.id) (by rw [hbatch]; exact id)

/-- A file that is deleted takes its part of the batch with it, and its nodes as well. -/
theorem Attentive.removeFile {path : String} (he : Attentive log e)
    (hseen : ∀ o ∈ seen, ∀ id, ¬ o.Brings id) (hstore : e'.store = (e.store.removeFile path).store)
    (hbatch : e'.batcher = e.batcher.forget path) : Attentive (log ++ seen.map (now, ·)) e' where
  consistent := hstore ▸ he.consistent.removeFile path
  attends n hn hwaits := by
    rw [hstore] at hn
    obtain ⟨hne, hold⟩ := he.consistent.inStep.pending_removeFile hn hwaits
    refine he.attends_of_wasPending hold (fun o ho => hseen o ho n.id) fun hmem => ?_
    rw [hbatch]
    exact Batcher.mem_pending_forget.mpr ⟨hne.symm, hmem⟩

omit [Parsers] in
theorem wasPending_self {g : Graph} (hn : n ∈ g.nodes) (hpending : n.pending = true) :
    g.WasPending n :=
  ⟨n, hn, rfl, rfl, hpending⟩

/-- What every deed keeps: the pending nodes are attended to. -/
theorem Attentive.deed (he : Attentive log e) (h : e.Deed textualGraphs read now seen e') :
    Attentive (log ++ seen.map (now, ·)) e' := by
  have hs := he.consistent.inStep
  have hupdated {path content : String} {store : Store} {patch : Option Patch}
      (hupdate : e.store.localUpdate path content = .ok (store, patch)) : store.Consistent :=
    he.consistent.edit (Store.apply_of_localUpdate hupdate)
  have hunpatched {path content : String} {store : Store}
      (hupdate : e.store.localUpdate path content = .ok (store, none)) :
      store.graph = e.store.graph :=
    Store.graph_eq_of_localUpdate hupdate
  cases h with
  | aside seen debounce running queued hseen =>
    exact he.frame he.consistent (fun o ho => Occurrence.not_brings_of_isAside (hseen o ho)) rfl
      fun n hn hpending => wasPending_self hn hpending
  | forgotten path hempty => exact he.removeFile (by simp [Occurrence.Brings]) rfl rfl
  | deleted path hempty => exact he.removeFile (by simp [Occurrence.Brings]) rfl rfl
  | refreshed path content store patch hread hupdate hempty =>
    refine he.frame (hupdated hupdate) (List.forall_mem_nil _) rfl fun n hn hpending => ?_
    rcases hs.pending_update hupdate hn hpending with ⟨hadded, -⟩ | ⟨-, hold⟩
    · simp only [Patch.isEmpty, Bool.and_eq_true, List.isEmpty_iff] at hempty
      rw [hempty.1.1.1] at hadded
      cases hadded
    · exact hold
  | patched path content store patch hread hupdate hempty =>
    refine ⟨hupdated hupdate, fun n hn hpending => ?_⟩
    rcases hs.pending_update hupdate hn hpending with ⟨hadded, rfl⟩ | ⟨hnot, hold⟩
    · have hreports := Store.reports_of_localUpdate hs.wellFormed.idsRight hupdate
      exact .inl (Batcher.mem_pending_enqueue.mpr (.inr ⟨rfl, hreports.needsMetadata_eq ▸ hadded⟩))
    · exact he.attends_of_wasPending hold (by simp [Occurrence.Brings, hnot])
        fun hbatch => Batcher.mem_pending_enqueue.mpr (.inl hbatch)
  | ignored path content store hread hupdate hanalyzed =>
    exact he.frame (hupdated hupdate) (List.forall_mem_nil _) rfl fun n hn hpending =>
      wasPending_self (hunpatched hupdate ▸ hn) hpending
  | abandoned path content store hread hupdate hanalyzed =>
    exact he.frame (hupdated hupdate) (List.forall_mem_nil _) rfl fun n hn hpending =>
      wasPending_self (hunpatched hupdate ▸ hn) hpending
  | calmed path hdue =>
    exact he.frame he.consistent (by simp [Occurrence.Brings]) rfl
      fun n hn hpending => wasPending_self hn hpending
  | flushed hdue hempty =>
    -- A node of the batch would have been part of the request.
    refine ⟨he.consistent, fun n hn hpending => ?_⟩
    rcases he.attends n hn hpending with hbatch | hsince
    · obtain ⟨f, hf, -⟩ := hs.mem_classificationRequest he.consistent.coherent hn hpending hbatch
      simp [Std.ExtTreeMap.isEmpty_iff.mp hempty] at hf
    · exact .inr (hsince.append (List.forall_mem_nil _))
  | requested hdue hempty =>
    refine ⟨he.consistent, fun n hn hpending => .inr ?_⟩
    rw [List.map_singleton, since_append_singleton]
    rcases he.attends n hn hpending with hbatch | hsince
    · obtain ⟨f, hf, hid⟩ := hs.mem_classificationRequest he.consistent.coherent hn hpending hbatch
      exact .inl ⟨_, f, rfl, hf, hid⟩
    · exact .inr ⟨hsince, not_false⟩
  | unclassified entries hids =>
    exact he.frame (he.consistent.classify entries) (List.forall_mem_nil _) rfl fun n hn hpending =>
      hs.pending_classify hn hpending
  | classified entries hids =>
    exact he.frame (he.consistent.classify entries) (by simp [Occurrence.Brings]) rfl
      fun n hn hpending => hs.pending_classify hn hpending
  | installed reason files result store stale hgraph hinstall =>
    refine ⟨he.consistent.installAnalysis (textualGraphs_iff.mp hgraph) hinstall,
      fun n hn hpending => .inl (Batcher.mem_pending_foldl_enqueue.mpr (.inr ?_))⟩
    obtain ⟨ids, hids, hid⟩ :=
      PendingBatch.exists_getElem?_of_mem_getD (Store.mem_pendingByFile hn hpending)
    exact ⟨(n.source.file, ids), Std.ExtTreeMap.mem_toList_iff_getElem?_eq_some.mpr hids, rfl, hid⟩

end Engine

namespace Loop

variable {timing : Timing} {s : Store} {l : Loop} {rounds : List Round} {n : Node}

/-- In every run from a store without nodes, each pending node waits in the batch, or is part of a
request that has been made since the node was last put into the graph. -/
theorem mem_pending_or_requested [Parsers] (h : Run textualGraphs ⟨.start timing s, []⟩ rounds l)
    (hs : s = .empty ∨ ∃ files, Store.empty.seed files = .ok s) (hn : n ∈ l.engine.store.graph.nodes)
    (hpending : n.pending = true) :
    n.id ∈ l.engine.batcher.pending.getD n.source.file ∅ ∨
      Since (fun o => o.2.Requests n.source.file n.id) (fun o => o.2.Brings n.id) (log rounds) := by
  have hattentive : Engine.Attentive (log rounds) l.engine := by
    refine h.preserves (fun log e read now seen e' he hdeed => he.deed hdeed) ?_
    obtain ⟨hconsistent, hempty⟩ := Store.consistent_of_seeded hs
    refine ⟨hconsistent, fun n hn => ?_⟩
    change n ∈ s.graph.nodes at hn
    rw [hempty] at hn
    cases hn
  exact hattentive.attends n hn hpending

set_option maxRecDepth 100000 in
/-- A file comes into the graph, and its node is asked for once the batch is due. -/
theorem mem_pending_or_requested_of_flushed :
    ∃ rounds l n, Run textualGraphs ⟨.start ⟨500, 200, 5000, 1000⟩ .empty, []⟩ rounds l ∧
      rounds.map (·.message) = [.change ⟨"a.py", .create⟩, .deadline, .deadline] ∧
      n ∈ l.engine.store.graph.nodes ∧ n.id = "a.py::g" ∧ n.pending = true ∧
      l.engine.batcher.isEmpty = true ∧
      (n.id ∈ l.engine.batcher.pending.getD n.source.file ∅ ∨
        Since (fun o => o.2.Requests n.source.file n.id) (fun o => o.2.Brings n.id) (log rounds)) := by
  have hcomputed : ((hears ⟨.start ⟨500, 200, 5000, 1000⟩ .empty, []⟩
      (fun _ => some "OpenAI().chat()\ndef g(): pass")
      [(0, .change ⟨"a.py", .create⟩), (200, .deadline), (1200, .deadline)]).map fun l =>
        (l.engine.store.graph.nodes.map fun n => (n.id, n.pending), l.engine.batcher.isEmpty)) =
      some ([("a.py::g", true)], true) := by
    decide +kernel
  obtain ⟨l, hl, hcomputed⟩ := Option.map_eq_some_iff.mp hcomputed
  obtain ⟨hnodes, hempty⟩ := Prod.mk.inj hcomputed
  obtain ⟨n, hn, hnode⟩ := List.map_eq_singleton_iff.mp hnodes
  obtain ⟨hid, hpending⟩ := Prod.mk.inj hnode
  obtain ⟨rounds, hrun, hmessages⟩ := exists_run_of_hears textualGraphs hl (by
    simp only [List.forall_mem_cons]
    exact ⟨.change _, .deadline, .deadline, nofun⟩)
  have hmem : n ∈ l.engine.store.graph.nodes := hn ▸ List.mem_singleton_self n
  exact ⟨rounds, l, n, hrun, hmessages, hmem, hid, hpending, hempty,
    mem_pending_or_requested hrun (.inl rfl) hmem hpending⟩

end Loop

end Flowgraph

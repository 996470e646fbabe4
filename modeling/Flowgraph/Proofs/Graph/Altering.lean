import Flowgraph.Proofs.Graph.Patching
import Mathlib.Logic.Relation

/-!
# Changes of a difference, one by one

Applying a difference makes one small change after another. What each of them keeps is kept by the
whole difference, whatever the graph was like before.
-/

namespace Flowgraph

namespace Graph

namespace Update

variable {diff : CallGraphDiff} {new : CallGraph} {path name : String} {u v : Update}

/-! ## Changes -/

/-- Whether a difference adds or modifies a function, which is on a line of the new call graph. -/
def PutsAt (diff : CallGraphDiff) (new : CallGraph) (name : String) (line : Nat) : Prop :=
  (name ∈ diff.addedFunctions ∨ name ∈ diff.modifiedFunctions) ∧
    ∃ f, new.get? name = some f ∧ f.startLine = line

/-- A change that applying a difference to a file can make, with what the patch reports of it. Nodes
are only dropped before any has been added. -/
inductive Alters (diff : CallGraphDiff) (new : CallGraph) (path : String) (u : Update) : Update → Prop
  | drop (name id : String) (hname : name ∈ diff.removedFunctions) (hnone : u.patch.nodesAdded = [])
      (hid : u.graph.functionNodeId? path name = some id) :
      Alters diff new path u ⟨u.graph.removeNode id, { u.patch with
        nodesRemoved := u.patch.nodesRemoved ++ [id]
        edgesRemoved := u.patch.edgesRemoved +
          (u.graph.edges.length - (u.graph.removeNode id).edges.length) }⟩
  | add (f : FunctionInfo) (hname : f.name ∈ diff.addedFunctions) (hf : new.get? f.name = some f)
      (hnew : ¬ u.graph.Shows path f.name) :
      Alters diff new path u
        ⟨u.graph.addNode (Node.ofFunction (u.graph.allocateId path f.name f.startLine) path f),
          { u.patch with
            nodesAdded := u.patch.nodesAdded ++ [u.graph.allocateId path f.name f.startLine]
            needsMetadata := u.patch.needsMetadata ++ [u.graph.allocateId path f.name f.startLine] }⟩
  | move (name id : String) (line : Nat) (hid : u.graph.functionNodeId? path name = some id)
      (hline : PutsAt diff new name line) :
      Alters diff new path u ⟨moveFunction path name line u.graph,
        { u.patch with nodesUpdated := u.patch.nodesUpdated ++ [id] }⟩
  | note (name : String) :
      Alters diff new path u
        { u with patch := { u.patch with changedFunctions := u.patch.changedFunctions ++ [name] } }
  | unlink (caller callee source target : String) (hcall : (caller, callee) ∈ diff.removedEdges)
      (hs : u.graph.functionNodeId? path caller = some source)
      (ht : u.graph.functionNodeId? path callee = some target) :
      Alters diff new path u ⟨u.graph.removeEdge source target, { u.patch with
        edgesRemoved := u.patch.edgesRemoved +
          (u.graph.edges.length - (u.graph.removeEdge source target).edges.length) }⟩
  | link (caller callee source target : String)
      (hcall : (caller, callee) ∈ diff.addedEdges ∨ (caller, callee) ∈ new.edges)
      (hne : callee ≠ caller)
      (hs : u.graph.functionNodeId? path caller = some source)
      (ht : u.graph.functionNodeId? path callee = some target) :
      Alters diff new path u (u.link source target)

/-- Any number of changes. -/
abbrev Becomes (diff : CallGraphDiff) (new : CallGraph) (path : String) : Update → Update → Prop :=
  Relation.ReflTransGen (Alters diff new path)

/-! ## Functions -/

theorem becomes_removeFunction (hname : name ∈ diff.removedFunctions)
    (hnone : u.patch.nodesAdded = []) :
    Becomes diff new path u (u.removeFunction path name) ∧
      (u.removeFunction path name).patch.nodesAdded = [] := by
  unfold removeFunction
  cases hid : u.graph.functionNodeId? path name with
  | none => exact ⟨.refl, hnone⟩
  | some id => exact ⟨.single (.drop name id hname hnone hid), hnone⟩

theorem becomes_foldl_removeFunction {names : List String}
    (hnames : ∀ name ∈ names, name ∈ diff.removedFunctions) (hnone : u.patch.nodesAdded = []) :
    Becomes diff new path u (names.foldl (removeFunction path) u) := by
  induction names generalizing u with
  | nil => exact .refl
  | cons name names ih =>
    obtain ⟨hfirst, hnone⟩ := becomes_removeFunction (hnames name List.mem_cons_self) hnone
    exact hfirst.trans (ih (fun name' h => hnames name' (List.mem_cons_of_mem name h)) hnone)

theorem becomes_touchFunction {f : FunctionInfo} (hline : PutsAt diff new name f.startLine) :
    Becomes diff new path u (u.touchFunction path f name) := by
  unfold touchFunction
  cases hid : u.graph.functionNodeId? path name with
  | none => exact .refl
  | some id => exact .single (.move name id f.startLine hid hline)

theorem becomes_addFunction (hname : name ∈ diff.addedFunctions)
    (h : u.addFunction path new name = .ok v) : Becomes diff new path u v := by
  unfold addFunction at h
  cases hf : new.get? name with
  | none => simp [hf] at h
  | some f =>
    obtain rfl := CallGraph.name_of_get? hf
    simp only [hf] at h
    split at h
    next =>
      cases h
      exact becomes_touchFunction ⟨.inl hname, f, hf, rfl⟩
    next hnone =>
      cases h
      refine .single (.add f hname hf ?_)
      rw [← functionNode?_eq_none]
      simpa using hnone

theorem becomes_modifyFunction (hname : name ∈ diff.modifiedFunctions)
    (h : u.modifyFunction path new name = .ok v) : Becomes diff new path u v := by
  unfold modifyFunction at h
  cases hf : new.get? name with
  | none => simp [hf] at h
  | some f =>
    simp only [hf] at h
    cases h
    exact (becomes_touchFunction ⟨.inr hname, f, hf, rfl⟩).tail (.note name)

theorem becomes_foldlM_addFunction {names : List String}
    (hnames : ∀ name ∈ names, name ∈ diff.addedFunctions)
    (h : names.foldlM (addFunction path new) u = .ok v) : Becomes diff new path u v :=
  Outcome.foldlM_preserves_of_mem (P := Becomes diff new path u)
    (fun name hname _ _ happly hv => hv.trans (becomes_addFunction (hnames name hname) happly)) .refl h

theorem becomes_foldlM_modifyFunction {names : List String}
    (hnames : ∀ name ∈ names, name ∈ diff.modifiedFunctions)
    (h : names.foldlM (modifyFunction path new) u = .ok v) : Becomes diff new path u v :=
  Outcome.foldlM_preserves_of_mem (P := Becomes diff new path u)
    (fun name hname _ _ happly hv => hv.trans (becomes_modifyFunction (hnames name hname) happly)) .refl h

/-! ## Calls -/

theorem becomes_removeCall {p : StringPair} (hp : p ∈ diff.removedEdges) :
    Becomes diff new path u (u.removeCall path p) := by
  unfold removeCall
  split
  next callee hsplit =>
    obtain ⟨rfl, -⟩ := Call.split_eq_none_iff.mp hsplit
    split
    next source target hs ht => exact .single (.unlink p.1 p.2 source target hp hs ht)
    next => exact .refl
  next => exact .refl

theorem becomes_addCall {p : StringPair} (hp : p ∈ diff.addedEdges) :
    Becomes diff new path u (u.addCall path new p) := by
  unfold addCall
  split
  next => exact .refl
  next callee hcallee =>
    obtain ⟨rfl, -, hne, -⟩ := fileCallee?_eq_some.mp hcallee
    split
    next source target hs ht => exact .single (.link p.1 p.2 source target (.inl hp) hne hs ht)
    next => exact .refl

theorem becomes_linkCallers (name : String) : Becomes diff new path u (u.linkCallers path new name) := by
  unfold linkCallers
  cases htarget : u.graph.functionNodeId? path name with
  | none => exact .refl
  | some target =>
    -- Linking adds edges alone, so that the callee is found under the same id in every round.
    refine (List.foldlRecOn (motive := fun v : Update => Becomes diff new path u v ∧
      v.graph.functionNodeId? path name = some target) new.toList _ ⟨.refl, htarget⟩
      fun v ⟨hv, htarget⟩ f hf => ?_).1
    unfold linkCaller
    split
    next hcalls =>
      obtain ⟨call, hcall, hcallee⟩ := List.any_eq_true.mp hcalls
      obtain ⟨rfl, -, hne, -⟩ := fileCallee?_eq_some.mp (beq_iff_eq.mp hcallee)
      have hedge : (f.name, name) ∈ new.edges :=
        CallGraph.mem_edges.mpr ⟨f, CallGraph.mem_toList.mp hf, hcall⟩
      split
      next source hsource =>
        refine ⟨hv.tail (.link f.name name source target (.inr hedge) hne hsource htarget), ?_⟩
        rw [functionNodeId?, functionNode?, graph_link, nodes_addEdge]
        exact htarget
      next => exact ⟨hv, htarget⟩
    next => exact ⟨hv, htarget⟩

theorem becomes_relink (u : Update) (diff : CallGraphDiff) (new : CallGraph) (path : String) :
    Becomes diff new path u (u.relink diff new path) := by
  have hunlinked := List.foldlRecOn (motive := Becomes diff new path u) diff.removedEdges.toList
    (removeCall path) .refl fun v hv p hp =>
      hv.trans (becomes_removeCall (Std.ExtTreeSet.mem_toList.mp hp))
  have hlinked := List.foldlRecOn (motive := Becomes diff new path u) diff.addedEdges.toList
    (addCall path new) hunlinked fun v hv p hp =>
      hv.trans (becomes_addCall (Std.ExtTreeSet.mem_toList.mp hp))
  exact List.foldlRecOn (motive := Becomes diff new path u) diff.addedFunctions.toList
    (linkCallers path new) hlinked fun v hv name _ => hv.trans (becomes_linkCallers name)

theorem becomes_renew (hnone : u.patch.nodesAdded = []) (h : u.renew diff new path = .ok v) :
    Becomes diff new path u v := by
  obtain ⟨w, hadded, hmodified⟩ := Outcome.bind_eq_ok.mp h
  have hremoved : Becomes diff new path u (diff.removedFunctions.toList.foldl (removeFunction path) u) :=
    becomes_foldl_removeFunction (fun name => Std.ExtTreeSet.mem_toList.mp) hnone
  have hrenewed := becomes_foldlM_addFunction (fun name => Std.ExtTreeSet.mem_toList.mp) hadded
  exact (hremoved.trans hrenewed).trans
    (becomes_foldlM_modifyFunction (fun name => Std.ExtTreeSet.mem_toList.mp) hmodified)

end Update

/-! ## The whole difference -/

section ApplyDiff

variable {g : Graph} {diff : CallGraphDiff} {new : CallGraph} {path : String} {u : Update}

/-- A difference is applied if the new call graph has all functions that it adds or modifies. -/
theorem exists_applyDiff (g : Graph) (path : String)
    (hnamed : ∀ name, name ∈ diff.addedFunctions ∨ name ∈ diff.modifiedFunctions →
      new.contains name = true) : ∃ u, g.applyDiff diff new path = .ok u := by
  suffices hrenew : ∃ u, Update.renew ⟨g, .empty⟩ diff new path = .ok u by
    obtain ⟨u, hu⟩ := hrenew
    exact ⟨_, by rw [applyDiff_eq, hu]; rfl⟩
  have hadd : ∀ name ∈ diff.addedFunctions.toList, ∀ u : Update,
      ∃ v, u.addFunction path new name = .ok v := by
    intro name hname u
    obtain ⟨f, hf⟩ := CallGraph.contains_iff.mp (hnamed name (.inl (Std.ExtTreeSet.mem_toList.mp hname)))
    simp only [Update.addFunction, hf]
    split <;> exact ⟨_, rfl⟩
  have hmodify : ∀ name ∈ diff.modifiedFunctions.toList, ∀ u : Update,
      ∃ v, u.modifyFunction path new name = .ok v := by
    intro name hname u
    obtain ⟨f, hf⟩ := CallGraph.contains_iff.mp (hnamed name (.inr (Std.ExtTreeSet.mem_toList.mp hname)))
    simp only [Update.modifyFunction, hf]
    exact ⟨_, rfl⟩
  obtain ⟨v, hv⟩ := Outcome.exists_foldlM_eq_ok hadd
    (diff.removedFunctions.toList.foldl (Update.removeFunction path) ⟨g, .empty⟩)
  obtain ⟨w, hw⟩ := Outcome.exists_foldlM_eq_ok hmodify v
  exact ⟨w, Outcome.bind_eq_ok.mpr ⟨v, hv, hw⟩⟩

/-- A difference of two call graphs names no function that the new one does not have. -/
theorem exists_applyDiff_diff (g : Graph) (old new : CallGraph) (path : String) :
    ∃ u, g.applyDiff (old.diff new) new path = .ok u := by
  refine g.exists_applyDiff path fun name hname => ?_
  rcases hname with hadded | hmodified
  · exact (CallGraph.mem_addedFunctions.mp hadded).1
  · exact (CallGraph.contains_of_mem_modifiedFunctions hmodified).2

/-- A difference that cannot be applied names a function that the new call graph does not have. -/
theorem exists_of_applyDiff_eq_error {e : UpdateError} (h : g.applyDiff diff new path = .error e) :
    ∃ name, (name ∈ diff.addedFunctions ∨ name ∈ diff.modifiedFunctions) ∧
      new.contains name = false ∧ e = .inconsistentDiff path name := by
  have hnone {name : String} (hget : new.get? name = none) : new.contains name = false := by
    rw [CallGraph.contains_eq_isSome, hget]
    rfl
  rw [applyDiff_eq, Outcome.map_eq_error] at h
  rcases Outcome.bind_eq_error.mp h with hadds | ⟨v, -, hmodifies⟩
  · obtain ⟨name, hname, u, hfails⟩ := Outcome.exists_of_foldlM_eq_error hadds
    refine ⟨name, .inl (Std.ExtTreeSet.mem_toList.mp hname), ?_⟩
    cases hget : new.get? name with
    | none =>
      simp only [Update.addFunction, hget, Except.error.injEq] at hfails
      exact ⟨hnone hget, hfails.symm⟩
    | some f =>
      simp only [Update.addFunction, hget] at hfails
      split at hfails <;> cases hfails
  · obtain ⟨name, hname, u, hfails⟩ := Outcome.exists_of_foldlM_eq_error hmodifies
    refine ⟨name, .inr (Std.ExtTreeSet.mem_toList.mp hname), ?_⟩
    cases hget : new.get? name with
    | none =>
      simp only [Update.modifyFunction, hget, Except.error.injEq] at hfails
      exact ⟨hnone hget, hfails.symm⟩
    | some f =>
      simp only [Update.modifyFunction, hget] at hfails
      cases hfails

/-- A difference that is applied renews the functions first and links them then. -/
theorem exists_renew_of_applyDiff (h : g.applyDiff diff new path = .ok u) :
    ∃ v, Update.renew ⟨g, .empty⟩ diff new path = .ok v ∧ Update.Becomes diff new path ⟨g, .empty⟩ v ∧
      Update.Becomes diff new path ⟨g, .empty⟩ (v.relink diff new path) ∧
      u = (v.relink diff new path).finish := by
  rw [applyDiff_eq] at h
  obtain ⟨v, hv, rfl⟩ := Outcome.map_eq_ok.mp h
  have hrenewed : Update.Becomes diff new path ⟨g, .empty⟩ v := Update.becomes_renew rfl hv
  exact ⟨v, hv, hrenewed, hrenewed.trans (Update.becomes_relink v diff new path), rfl⟩

theorem exists_becomes_of_applyDiff (h : g.applyDiff diff new path = .ok u) :
    ∃ v, Update.Becomes diff new path ⟨g, .empty⟩ v ∧ u = v.finish := by
  obtain ⟨v, -, -, hwhole, hu⟩ := exists_renew_of_applyDiff h
  exact ⟨_, hwhole, hu⟩

/-- What every change keeps holds after all of them, when only the flags are left to bring up to
date. -/
theorem exists_of_applyDiff {P : Update → Prop} (hstart : P ⟨g, .empty⟩)
    (hstep : ∀ u v, Update.Alters diff new path u v → P u → P v)
    (h : g.applyDiff diff new path = .ok u) : ∃ v, P v ∧ u = v.finish := by
  obtain ⟨v, hv, rfl⟩ := exists_becomes_of_applyDiff h
  refine ⟨v, ?_, rfl⟩
  clear h
  induction hv with
  | refl => exact hstart
  | tail _ halters ih => exact hstep _ _ halters ih

end ApplyDiff

/-! ## Well-formedness -/

section WellFormed

variable {g : Graph} {diff : CallGraphDiff} {new : CallGraph} {path : String} {u v : Update}

/-- The node that comes for a function of a call graph has the id of its name. -/
theorem IdsRight.isPlainName_and_allocateId_eq (hg : g.IdsRight) (hplain : new.HasPlainNames)
    {f : FunctionInfo} (hf : new.get? f.name = some f) (hnew : ¬ g.Shows path f.name) :
    IsPlainName f.name ∧ g.allocateId path f.name f.startLine = nodeId path f.name := by
  have hname := hplain f.name (CallGraph.contains_iff.mpr ⟨f, hf⟩)
  exact ⟨hname, hg.allocateId_eq hname hnew f.startLine⟩

namespace Update.Alters

theorem idsRight (h : Alters diff new path u v) (hplain : new.HasPlainNames)
    (hu : u.graph.IdsRight) : v.graph.IdsRight := by
  cases h with
  | drop name id => exact hu.removeNode id
  | add f hname hf hnew =>
    obtain ⟨hname, hid⟩ := hu.isPlainName_and_allocateId_eq hplain hf hnew
    exact hu.addNode hid hname hnew
  | move => exact hu.congr map_key_moveFunction
  | note => exact hu
  | unlink => exact hu.congr rfl
  | link => exact hu.congr (by rw [graph_link, nodes_addEdge])

theorem wellFormed (h : Alters diff new path u v) (hplain : new.HasPlainNames)
    (hu : u.graph.WellFormed) : v.graph.WellFormed := by
  cases h with
  | drop name id => exact hu.removeNode id
  | add f hname hf hnew =>
    obtain ⟨hname, hid⟩ := hu.idsRight.isPlainName_and_allocateId_eq hplain hf hnew
    exact hu.addNode hid hname hnew
  | move name id line => exact hu.moveFunction path name line
  | note => exact hu
  | unlink caller callee source target => exact hu.removeEdge source target
  | link caller callee source target hcall hne hs ht =>
    obtain ⟨hcaller, rfl⟩ := hu.functionNodeId?_eq_some.mp hs
    obtain ⟨hcallee, rfl⟩ := hu.functionNodeId?_eq_some.mp ht
    rw [graph_link]
    exact (AddsEdges.addEdge_of_shows hu hcaller hcallee fun heq => hne heq.2.symm).wellFormed

end Update.Alters

theorem WellFormed.applyDiff (hg : g.WellFormed) (hplain : new.HasPlainNames)
    (h : g.applyDiff diff new path = .ok u) : u.graph.WellFormed := by
  obtain ⟨v, hv, rfl⟩ := exists_of_applyDiff (P := fun u => u.graph.WellFormed) hg
    (fun u v halters hu => halters.wellFormed hplain hu) h
  exact Update.wellFormed_finish hv

end WellFormed

end Graph

end Flowgraph

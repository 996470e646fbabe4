import Flowgraph.Proofs.Graph.Drawing
import Flowgraph.Proofs.Graph.Reports

/-!
# Edges that come and go

An update removes no edge that it has drawn, and draws none again that it has removed. Where it counts
edges that come or go, the edges are therefore not the same afterwards.
-/

namespace Flowgraph

namespace Graph

variable {g h k : Graph} {path : String} {r : Resolver} {added removed added' removed' : Nat}

/-! ## Trading edges -/

/-- From `g` to `h`, no wanted edge goes and no other one comes. Where some are counted to come or to
go, at least one does. -/
structure Trades (wanted : String → String → Prop) (g h : Graph) (added removed : Nat) : Prop where
  kept : ∀ source target, wanted source target → g.hasEdge source target = true →
    h.hasEdge source target = true
  earned : ∀ source target, h.hasEdge source target = true → g.hasEdge source target = true ∨
    wanted source target
  comes : 0 < added → ∃ source target, ¬ g.hasEdge source target = true ∧
    h.hasEdge source target = true
  goes : 0 < removed → ∃ source target, g.hasEdge source target = true ∧
    ¬ h.hasEdge source target = true

variable {wanted : String → String → Prop}

namespace Trades

theorem of_edges_eq (hedges : h.edges = g.edges) : Trades wanted g h 0 0 where
  kept _ _ _ := (hasEdge_congr hedges).trans
  earned _ _ hedge := .inl ((hasEdge_congr hedges).symm.trans hedge)
  comes := nofun
  goes := nofun

theorem refl (g : Graph) : Trades wanted g g 0 0 := of_edges_eq rfl

/-- An edge that comes is wanted and therefore stays, and one that goes does not come back. -/
theorem trans (hgh : Trades wanted g h added removed) (hhk : Trades wanted h k added' removed') :
    Trades wanted g k (added + added') (removed + removed') where
  kept source target hwanted hedge := hhk.kept _ _ hwanted (hgh.kept _ _ hwanted hedge)
  earned source target hedge := (hhk.earned _ _ hedge).elim (hgh.earned _ _) .inr
  comes hsome := by
    rcases Nat.add_pos_iff_pos_or_pos.mp hsome with hfirst | hsecond
    · obtain ⟨source, target, hold, hnew⟩ := hgh.comes hfirst
      have hwanted := (hgh.earned _ _ hnew).resolve_left hold
      exact ⟨source, target, hold, hhk.kept _ _ hwanted hnew⟩
    · obtain ⟨source, target, hold, hnew⟩ := hhk.comes hsecond
      have hwanted := (hhk.earned _ _ hnew).resolve_left hold
      exact ⟨source, target, fun hedge => hold (hgh.kept _ _ hwanted hedge), hnew⟩
  goes hsome := by
    rcases Nat.add_pos_iff_pos_or_pos.mp hsome with hfirst | hsecond
    · obtain ⟨source, target, hold, hgone⟩ := hgh.goes hfirst
      refine ⟨source, target, hold, fun hedge => ?_⟩
      rcases hhk.earned _ _ hedge with hback | hwanted
      · exact hgone hback
      · exact hgone (hgh.kept _ _ hwanted hold)
    · obtain ⟨source, target, hold, hgone⟩ := hhk.goes hsecond
      rcases hgh.earned _ _ hold with hedge | hwanted
      · exact ⟨source, target, hedge, hgone⟩
      · exact absurd (hhk.kept _ _ hwanted hold) hgone

theorem congr (hgh : Trades wanted g h added removed) (hedges : k.edges = h.edges) :
    Trades wanted g k added removed :=
  hgh.trans (of_edges_eq hedges)

end Trades

/-- Every edge that is filtered out goes, as no other one links the same nodes. -/
theorem WellFormed.trades_filterEdges (hg : g.WellFormed) {keep : Edge → Bool}
    (hkeep : ∀ e ∈ g.edges, wanted e.source e.target → keep e = true) :
    Trades wanted g ⟨g.nodes, g.edges.filter keep⟩ 0
      (g.edges.length - (g.edges.filter keep).length) where
  kept source target hwanted hedge := by
    obtain ⟨e, he, rfl, rfl⟩ := hasEdge_iff.mp hedge
    exact hasEdge_filter.mpr ⟨e, he, hkeep e he hwanted, rfl, rfl⟩
  earned source target hedge := by
    obtain ⟨e, he, -, hends⟩ := hasEdge_filter.mp hedge
    exact .inl (hasEdge_iff.mpr ⟨e, he, hends⟩)
  comes := nofun
  goes hsome := by
    obtain ⟨e, he, hdropped⟩ : ∃ e ∈ g.edges, ¬ keep e = true := by
      by_contra hall
      push Not at hall
      rw [List.filter_eq_self.mpr hall, Nat.sub_self] at hsome
      exact Nat.lt_irrefl 0 hsome
    refine ⟨e.source, e.target, hasEdge_iff.mpr ⟨e, he, rfl, rfl⟩, fun hedge => hdropped ?_⟩
    obtain ⟨d, hd, hstays, hsource, htarget⟩ := hasEdge_filter.mp hedge
    obtain rfl : d = e :=
      List.inj_on_of_nodup_map hg.simple hd he (Prod.ext hsource htarget)
    exact hstays

theorem AddsEdges.trades {P : String → String → Prop} (hgh : AddsEdges g h P)
    (hP : ∀ source target, P source target → wanted source target) :
    Trades wanted g h (h.edges.length - g.edges.length) 0 where
  kept source target _ hedge := (hgh.hasEdge_iff _ _).mpr (.inl hedge)
  earned source target hedge := ((hgh.hasEdge_iff _ _).mp hedge).imp_right (hP _ _)
  comes hsome := by
    obtain ⟨new, hedges⟩ := hgh.edges_prefix
    cases new with
    | nil =>
      rw [← hedges, List.append_nil, Nat.sub_self] at hsome
      exact absurd hsome (Nat.lt_irrefl 0)
    | cons e new =>
      have he : e ∈ h.edges := hedges ▸ List.mem_append_right _ List.mem_cons_self
      refine ⟨e.source, e.target, fun hold => ?_, Graph.hasEdge_iff.mpr ⟨e, he, rfl, rfl⟩⟩
      obtain ⟨d, hd, hsource, htarget⟩ := Graph.hasEdge_iff.mp hold
      -- The pair would stand both among the edges before and among those that have come.
      have hsimple := hgh.wellFormed.simple
      rw [← hedges, List.map_append, List.map_cons] at hsimple
      refine List.disjoint_of_nodup_append hsimple (a := (d.source, d.target))
        (List.mem_map_of_mem hd) ?_
      rw [hsource, htarget]
      exact List.mem_cons_self
  goes := nofun

/-! ## Wanted edges -/

/-- Whether the nodes of two functions are linked by a call within a file that has the call graph
`calls`, or by a recorded call between files. -/
def Wanted (path : String) (calls : CallGraph) (r : Resolver) (source target : String) : Prop :=
  (∃ caller callee, (caller, callee) ∈ calls.edges ∧ IsPlainName caller ∧ IsPlainName callee ∧
      source = nodeId path caller ∧ target = nodeId path callee) ∨
    ∃ c ∈ r.calls, IsPlainName c.caller.function ∧ IsPlainName c.callee.function ∧
      source = nodeId c.caller.file c.caller.function ∧
      target = nodeId c.callee.file c.callee.function

section Wanted

variable {new : CallGraph} {caller callee : String}

/-- Between the functions of the file, the calls of its call graph alone are wanted. -/
theorem mem_edges_of_wanted (hr : r.IsProper) (hcaller : IsPlainName caller)
    (hcallee : IsPlainName callee)
    (h : Wanted path new r (nodeId path caller) (nodeId path callee)) : (caller, callee) ∈ new.edges := by
  rcases h with ⟨caller', callee', hcall, -, -, hs, ht⟩ | ⟨c, hc, hplain, hplain', hs, ht⟩
  · rwa [nodeId_inj_right.mp hs, nodeId_inj_right.mp ht]
  · rw [nodeId_inj hcaller hplain] at hs
    rw [nodeId_inj hcallee hplain'] at ht
    exact absurd (ht.1.symm.trans hs.1) (hr c hc)

/-- An edge that goes when the edges out of a file are drawn is not wanted. -/
theorem WellFormed.staysLinked_of_wanted (hg : g.WellFormed) (file : String) {e : Edge}
    (he : e ∈ g.edges) (hwanted : Wanted path new r e.source e.target) :
    staysLinked ((g.fileNodes file).map (·.id))
      (g.desiredLinks file (r.callsFrom file).toList) e = true := by
  obtain ⟨hsource, htarget⟩ := hg.closed e he
  rw [staysLinked_iff]
  rcases hwanted with ⟨caller, callee, -, hplain, hplain', hs, ht⟩ | ⟨c, hc, hplain, hplain', hs, ht⟩
  · rw [hs] at hsource
    rw [ht] at htarget
    rw [hs, ht, hg.nodeId_mem_ids_fileNodes ((hg.containsNode_nodeId hplain).mp hsource),
      hg.nodeId_mem_ids_fileNodes ((hg.containsNode_nodeId hplain').mp htarget)]
    exact .inl id
  · rw [hs] at hsource
    rw [ht] at htarget
    have hcaller := (hg.containsNode_nodeId hplain).mp hsource
    have hcallee := (hg.containsNode_nodeId hplain').mp htarget
    by_cases hfile : c.caller.file = file
    · refine .inr (.inr ((mem_desiredLinks hg).mpr ⟨c, ?_, hfile, hfile ▸ hcaller, hcallee, ?_, ht⟩))
      · exact Std.ExtTreeSet.mem_toList.mpr (Resolver.mem_callsFrom.mpr ⟨hc, hfile⟩)
      · rw [hs, hfile]
    · rw [hs, hg.nodeId_mem_ids_fileNodes hcaller]
      exact .inl fun heq => absurd heq hfile

theorem WellFormed.wanted_of_mem_desiredLinks (hg : g.WellFormed) {file source target : String}
    (h : (source, target) ∈ g.desiredLinks file (r.callsFrom file).toList) :
    Wanted path new r source target := by
  obtain ⟨c, hc, hfile, hcaller, hcallee, hs, ht⟩ := (mem_desiredLinks hg).mp h
  have hc := (Resolver.mem_callsFrom.mp (Std.ExtTreeSet.mem_toList.mp hc)).1
  exact .inr ⟨c, hc, hg.plain_of_shows hcaller, hg.plain_of_shows hcallee, hfile ▸ hs, ht⟩

theorem WellFormed.trades_splice (hg : g.WellFormed) (hr : r.IsProper) (path : String)
    (new : CallGraph) (file : String) :
    Trades (Wanted path new r) g (g.splice file (r.callsFrom file).toList).graph
      (g.splice file (r.callsFrom file).toList).added
      (g.splice file (r.callsFrom file).toList).removed := by
  have hcalls : ∀ c ∈ (r.callsFrom file).toList, c.IsProper := fun c hc =>
    hr c (Resolver.mem_callsFrom.mp (Std.ExtTreeSet.mem_toList.mp hc)).1
  have hadds := hg.addsEdges_withDrawnEdges hcalls file
  have hkept : Trades (Wanted path new r) g (g.withKeptEdges file (r.callsFrom file).toList) 0
      (g.splice file (r.callsFrom file).toList).removed :=
    hg.trades_filterEdges fun e he => hg.staysLinked_of_wanted file he
  have hdrawn := hkept.trans (hadds.trades fun source target => hg.wanted_of_mem_desiredLinks)
  rw [Nat.zero_add, Nat.add_zero, ← added_splice] at hdrawn
  refine hdrawn.congr ?_
  rw [graph_splice]
  split
  next hsame => rw [withDrawnEdges_eq_self hsame.1 hsame.2]
  next => exact edges_refreshEndpoints hadds.wellFormed.nodup_nodeIds

end Wanted

/-! ## Whole differences -/

section ApplyDiff

variable {old new : CallGraph} {u v : Update}

/-- While no node has gone, the counted edges are those that have been traded. -/
structure Update.Tallies (g : Graph) (path : String) (new : CallGraph) (r : Resolver) (u : Update) :
    Prop where
  wellFormed : u.graph.WellFormed
  trades : u.patch.nodesRemoved = [] →
    Trades (Wanted path new r) g u.graph u.patch.edgesAdded u.patch.edgesRemoved

theorem Update.Alters.tallies (h : Update.Alters (old.diff new) new path u v)
    (hplain : new.HasPlainNames) (hr : r.IsProper) (hu : u.Tallies g path new r) :
    v.Tallies g path new r := by
  refine ⟨h.wellFormed hplain hu.wellFormed, fun hnone => ?_⟩
  cases h with
  | drop => exact absurd hnone (List.append_ne_nil_of_right_ne_nil _ (List.cons_ne_nil _ _))
  | add | move | note => exact (hu.trades hnone).congr rfl
  | unlink caller callee source target hcall hs ht =>
    obtain ⟨hcaller, rfl⟩ := hu.wellFormed.functionNodeId?_eq_some.mp hs
    obtain ⟨hcallee, rfl⟩ := hu.wellFormed.functionNodeId?_eq_some.mp ht
    refine (hu.trades hnone).trans (hu.wellFormed.trades_filterEdges fun e _ hwanted => ?_)
    rw [Bool.not_eq_true', ← Bool.not_eq_true, joins_iff]
    rintro ⟨hsource, htarget⟩
    rw [hsource, htarget] at hwanted
    -- A call that has been removed is none of the new call graph.
    exact (CallGraph.mem_removedEdges.mp hcall).2 (mem_edges_of_wanted hr
      (hu.wellFormed.plain_of_shows hcaller) (hu.wellFormed.plain_of_shows hcallee) hwanted)
  | link caller callee source target hcall hne hs ht =>
    obtain ⟨hcaller, rfl⟩ := hu.wellFormed.functionNodeId?_eq_some.mp hs
    obtain ⟨hcallee, rfl⟩ := hu.wellFormed.functionNodeId?_eq_some.mp ht
    have hnew : (caller, callee) ∈ new.edges :=
      hcall.elim (fun hadded => (CallGraph.mem_addedEdges.mp hadded).1) id
    have hadds := AddsEdges.addEdge_of_shows hu.wellFormed hcaller hcallee fun heq => hne heq.2.symm
    have hlinked : Trades (Wanted path new r) u.graph _ _ 0 := hadds.trades (by
      rintro source target ⟨rfl, rfl⟩
      exact .inl ⟨caller, callee, hnew, hu.wellFormed.plain_of_shows hcaller,
        hu.wellFormed.plain_of_shows hcallee, rfl, rfl⟩)
    unfold Update.link at hnone ⊢
    split
    next hold =>
      rw [if_pos hold] at hnone
      exact hu.trades hnone
    next hold =>
      rw [if_neg hold] at hnone
      have hedges := edges_addEdge_of_not_hasEdge (g := u.graph)
        (e := .unresolved (nodeId path caller) (nodeId path callee)) (Bool.not_eq_true _ ▸ hold)
      rw [hedges, List.length_append, Nat.add_sub_cancel_left] at hlinked
      exact (hu.trades hnone).trans hlinked

/-- A difference of call graphs without nodes that go trades edges. -/
theorem WellFormed.trades_applyDiff (hg : g.WellFormed) (hplain : new.HasPlainNames)
    (hr : r.IsProper) (h : g.applyDiff (old.diff new) new path = .ok u)
    (hnone : u.patch.nodesRemoved = []) :
    Trades (Wanted path new r) g u.graph u.patch.edgesAdded u.patch.edgesRemoved := by
  obtain ⟨v, hv, rfl⟩ := exists_of_applyDiff (P := Update.Tallies g path new r)
    ⟨hg, fun _ => .refl g⟩ (fun u v halters hu => halters.tallies hplain hr hu) h
  have hpatch : v.finish.patch = v.patch := by
    unfold Update.finish
    split <;> rfl
  rw [hpatch] at hnone ⊢
  exact (hv.trades hnone).congr (Update.edges_finish hv.wellFormed.nodup_nodeIds)

end ApplyDiff

/-! ## Unchanged parts -/

/-- Whether two graphs have the same node ids and the same edges. -/
def SameParts (g h : Graph) : Prop :=
  (∀ id, id ∈ h.nodeIds ↔ id ∈ g.nodeIds) ∧ ∀ e, e ∈ h.edges ↔ e ∈ g.edges

theorem SameParts.hasEdge_iff (hgh : g.SameParts h) {source target : String} :
    h.hasEdge source target = true ↔ g.hasEdge source target = true := by
  simp only [Graph.hasEdge_iff, hgh.2]

end Graph

/-- An exact patch is empty just where neither the ids nor the edges have changed, provided that edges
have been traded where no node has come or gone. -/
theorem Patch.Reports.isEmpty_iff {p : Patch} {g h : Graph} {wanted : String → String → Prop}
    (hp : p.Reports g h)
    (htrades : p.nodesAdded = [] → p.nodesRemoved = [] →
      g.Trades wanted h p.edgesAdded p.edgesRemoved) :
    p.isEmpty = true ↔ g.SameParts h := by
  constructor
  · intro hempty
    refine ⟨fun id => ?_, fun e => by rw [(hp.of_isEmpty hempty).edges_eq]⟩
    simp only [isEmpty, Bool.and_eq_true, List.isEmpty_iff] at hempty
    simp [hp.mem_nodeIds, hempty.1.1.1, hempty.1.1.2]
  · intro hsame
    have hadded : p.nodesAdded = [] := by
      refine List.eq_nil_iff_forall_not_mem.mpr fun id hid => hp.nodesAdded_new id hid ?_
      exact (hsame.1 id).mp (hp.mem_nodeIds.mpr (.inr hid))
    have hremoved : p.nodesRemoved = [] := by
      refine List.eq_nil_iff_forall_not_mem.mpr fun id hid => ?_
      have hkept := (hsame.1 id).mpr (hp.nodesRemoved_subset hid)
      rw [hp.mem_nodeIds, hadded] at hkept
      exact hkept.elim (fun hold => hold.2 hid) List.not_mem_nil
    have ht := htrades hadded hremoved
    have hcomes : p.edgesAdded = 0 := by
      by_contra hsome
      obtain ⟨source, target, hold, hnew⟩ := ht.comes (Nat.pos_of_ne_zero hsome)
      exact hold (hsame.hasEdge_iff.mp hnew)
    have hgoes : p.edgesRemoved = 0 := by
      by_contra hsome
      obtain ⟨source, target, hold, hgone⟩ := ht.goes (Nat.pos_of_ne_zero hsome)
      exact hgone (hsame.hasEdge_iff.mpr hold)
    simp [isEmpty, hadded, hremoved, hcomes, hgoes]

end Flowgraph

import Flowgraph.Graph.Patch
import Flowgraph.Proofs.Graph.WellFormed

/-!
# Adding, moving and removing nodes

What a graph shows and links after a node has come, moved or gone, and after all nodes of a file have
gone.
-/

namespace Flowgraph

namespace Graph

variable {g h k : Graph} {file function id source target : String} {place : Location}

/-! ## Adding -/

theorem mem_places_addNode {n : Node} :
    place ∈ (g.addNode n).places ↔ place ∈ g.places ∨ place = n.source := by
  simp [places, addNode]

theorem nodup_nodeIds_addNode {n : Node} :
    (g.addNode n).nodeIds.Nodup ↔ n.id ∉ g.nodeIds ∧ g.nodeIds.Nodup := by
  rw [nodeIds, addNode, List.map_append, List.map_singleton, ← List.concat_eq_append,
    List.nodup_concat, nodeIds]

theorem IdsRight.addNode (hg : g.IdsRight) {n : Node}
    (hid : n.id = nodeId n.source.file n.source.function) (hplain : IsPlainName n.source.function)
    (hnew : ¬ g.Shows n.source.file n.source.function) : (g.addNode n).IdsRight where
  nodup_nodeIds := by
    refine nodup_nodeIds_addNode.mpr ⟨fun hmem => hnew ?_, hg.nodup_nodeIds⟩
    obtain ⟨m, hm, heq⟩ := List.mem_map.mp hmem
    rw [← hg.containsNode_nodeId hplain, ← hid, containsNode_iff]
    exact ⟨m, hm, heq⟩
  id_eq m hm := by
    rcases List.mem_append.mp hm with hm | hm
    · exact hg.id_eq m hm
    · rw [List.mem_singleton.mp hm]
      exact hid
  plain m hm := by
    rcases List.mem_append.mp hm with hm | hm
    · exact hg.plain m hm
    · rw [List.mem_singleton.mp hm]
      exact hplain

theorem WellFormed.addNode (hg : g.WellFormed) {n : Node}
    (hid : n.id = nodeId n.source.file n.source.function) (hplain : IsPlainName n.source.function)
    (hnew : ¬ g.Shows n.source.file n.source.function) : (g.addNode n).WellFormed where
  __ := hg.idsRight.addNode hid hplain hnew
  closed e he := (hg.closed e he).imp (containsNode_mono (List.subset_append_left _ _))
    (containsNode_mono (List.subset_append_left _ _))
  simple := hg.simple
  loopless := hg.loopless

/-! ## Changing -/

theorem map_updateFirst {α β : Type} {key : α → β} {p : α → Bool} {f : α → α}
    (hkey : ∀ a, key (f a) = key a) (as : List α) :
    (updateFirst p f as).map key = as.map key := by
  induction as with
  | nil => rfl
  | cons a as ih =>
    rw [updateFirst]
    split
    · simp [hkey]
    · simp [ih]

/-- Where at most one element satisfies `p`, every element that does is changed. -/
theorem updateFirst_eq_map {α : Type} {p : α → Bool} {f : α → α} {as : List α}
    (huniq : as.Pairwise fun a b => ¬ (p a = true ∧ p b = true)) :
    updateFirst p f as = as.map fun a => if p a = true then f a else a := by
  induction as with
  | nil => rfl
  | cons a as ih =>
    obtain ⟨ha, has⟩ := List.pairwise_cons.mp huniq
    rw [updateFirst, List.map_cons]
    by_cases hp : p a = true
    -- The first match is the only one, and the rest stays as it is.
    · have hrest : as.map (fun b => if p b = true then f b else b) = as := by
        refine (List.map_congr_left fun b hb => ?_).trans (List.map_id as)
        rw [if_neg fun hpb => ha b hb ⟨hp, hpb⟩, id]
      rw [if_pos hp, if_pos hp, hrest]
    · rw [if_neg hp, if_neg hp, ih has]

theorem mem_updateFirst {α : Type} {p : α → Bool} {f : α → α} {a : α} {as : List α} (ha : a ∈ as) :
    a ∈ updateFirst p f as ∨ p a = true ∧ f a ∈ updateFirst p f as := by
  induction as with
  | nil => cases ha
  | cons b as ih =>
    unfold updateFirst
    rcases List.mem_cons.mp ha with rfl | ha
    · split
      next hp => exact .inr ⟨hp, List.mem_cons_self⟩
      next => exact .inl List.mem_cons_self
    · split
      next => exact .inl (List.mem_cons_of_mem _ ha)
      next => exact (ih ha).imp (List.mem_cons_of_mem _) (And.imp_right (List.mem_cons_of_mem _))

theorem of_mem_updateFirst {α : Type} {p : α → Bool} {f : α → α} {b : α} {as : List α}
    (hb : b ∈ updateFirst p f as) : ∃ a ∈ as, b = a ∨ p a = true ∧ b = f a := by
  induction as with
  | nil => cases hb
  | cons a as ih =>
    unfold updateFirst at hb
    split at hb
    next hp =>
      rcases List.mem_cons.mp hb with rfl | hb
      · exact ⟨a, List.mem_cons_self, .inr ⟨hp, rfl⟩⟩
      · exact ⟨b, List.mem_cons_of_mem a hb, .inl rfl⟩
    next =>
      rcases List.mem_cons.mp hb with rfl | hb
      · exact ⟨b, List.mem_cons_self, .inl rfl⟩
      · obtain ⟨c, hc, heq⟩ := ih hb
        exact ⟨c, List.mem_cons_of_mem a hc, heq⟩

/-- Where ids are distinct and tell the functions, no function has two nodes. -/
theorem pairwise_isOf (hids : g.nodeIds.Nodup)
    (hid : ∀ n ∈ g.nodes, n.id = nodeId n.source.file n.source.function) (file function : String) :
    g.nodes.Pairwise fun m n => ¬ (m.isOf file function = true ∧ n.isOf file function = true) := by
  refine List.Pairwise.imp_of_mem ?_ (List.pairwise_map.mp hids)
  rintro m n hm hn hne ⟨hmof, hnof⟩
  obtain ⟨hmfile, hmfunction⟩ := isOf_iff.mp hmof
  obtain ⟨hnfile, hnfunction⟩ := isOf_iff.mp hnof
  apply hne
  rw [hid m hm, hid n hn, hmfile, hnfile, hmfunction, hnfunction]

theorem mem_places_moveFunction (hg : g.WellFormed) {path name : String} {line : Nat} :
    place ∈ (Update.moveFunction path name line g).places ↔
      (place ∈ g.places ∧ ¬ (place.file = path ∧ place.function = name)) ∨
        (g.Shows path name ∧ place = ⟨path, line, name⟩) := by
  have huniq := pairwise_isOf hg.nodup_nodeIds hg.id_eq path name
  simp only [places, Update.moveFunction, updateFirst_eq_map huniq, List.map_map, List.mem_map,
    Function.comp_apply, isOf_iff]
  constructor
  · rintro ⟨n, hn, rfl⟩
    split
    next hof => exact .inr ⟨⟨n, hn, hof⟩, by rw [Node.moveTo, ← hof.1, ← hof.2]⟩
    next hof => exact .inl ⟨⟨n, hn, rfl⟩, hof⟩
  · rintro (⟨⟨n, hn, rfl⟩, hof⟩ | ⟨⟨n, hn, hof⟩, rfl⟩)
    · exact ⟨n, hn, by rw [if_neg hof]⟩
    · exact ⟨n, hn, by rw [if_pos hof, Node.moveTo, ← hof.1, ← hof.2]⟩

theorem map_key_moveFunction {path name : String} {line : Nat} :
    (Update.moveFunction path name line g).nodes.map Node.key = g.nodes.map Node.key :=
  map_updateFirst (f := (·.moveTo line)) (fun _ => rfl) g.nodes

theorem WellFormed.moveFunction (hg : g.WellFormed) (path name : String) (line : Nat) :
    (Update.moveFunction path name line g).WellFormed :=
  hg.congr map_key_moveFunction rfl

/-! ## Lines -/

/-- `h` is `g` with nodes on other lines. -/
structure SameButLines (g h : Graph) : Prop where
  edges_eq : h.edges = g.edges
  nodes_eq : h.nodes.map (·.moveTo 0) = g.nodes.map (·.moveTo 0)

namespace SameButLines

theorem refl (g : Graph) : g.SameButLines g := ⟨rfl, rfl⟩

theorem symm (hgh : g.SameButLines h) : h.SameButLines g := ⟨hgh.edges_eq.symm, hgh.nodes_eq.symm⟩

theorem trans (hgh : g.SameButLines h) (hhk : h.SameButLines k) : g.SameButLines k :=
  ⟨hhk.edges_eq.trans hgh.edges_eq, hhk.nodes_eq.trans hgh.nodes_eq⟩

theorem moveFunction (g : Graph) (path name : String) (line : Nat) :
    g.SameButLines (Update.moveFunction path name line g) :=
  ⟨rfl, map_updateFirst (f := (·.moveTo line)) (fun _ => rfl) g.nodes⟩

theorem map_key_eq (hgh : g.SameButLines h) : h.nodes.map Node.key = g.nodes.map Node.key := by
  have hkeys (k : Graph) : k.nodes.map Node.key = (k.nodes.map (·.moveTo 0)).map Node.key := by
    rw [List.map_map]
    rfl
  rw [hkeys, hkeys, hgh.nodes_eq]

/-- Every node was there before, on some line. -/
theorem exists_node (hgh : g.SameButLines h) {n : Node} (hn : n ∈ h.nodes) :
    ∃ m ∈ g.nodes, n = m.moveTo n.source.line := by
  have hmem : n.moveTo 0 ∈ g.nodes.map (·.moveTo 0) := hgh.nodes_eq ▸ List.mem_map_of_mem hn
  obtain ⟨m, hm, heq⟩ := List.mem_map.mp hmem
  refine ⟨m, hm, ?_⟩
  calc n = (n.moveTo 0).moveTo n.source.line := rfl
    _ = (m.moveTo 0).moveTo n.source.line := by rw [heq]
    _ = m.moveTo n.source.line := rfl

end SameButLines

/-! ## Removing -/

theorem hasEdge_removeNode :
    (g.removeNode id).hasEdge source target = true ↔
      g.hasEdge source target = true ∧ source ≠ id ∧ target ≠ id := by
  simp only [hasEdge_iff, removeNode, List.mem_filter, Bool.not_eq_true', Edge.touches,
    Bool.or_eq_false_iff, beq_eq_false_iff_ne]
  constructor
  · rintro ⟨e, ⟨he, hs, ht⟩, rfl, rfl⟩
    exact ⟨⟨e, he, rfl, rfl⟩, hs, ht⟩
  · rintro ⟨⟨e, he, rfl, rfl⟩, hs, ht⟩
    exact ⟨e, ⟨he, hs, ht⟩, rfl, rfl⟩

theorem mem_places_removeNode (hg : g.WellFormed) (hplain : IsPlainName function) :
    place ∈ (g.removeNode (nodeId file function)).places ↔
      place ∈ g.places ∧ ¬ (place.file = file ∧ place.function = function) := by
  simp only [places, removeNode, List.mem_map, List.mem_filter, bne_iff_ne, ne_eq]
  constructor
  · rintro ⟨n, ⟨hn, hne⟩, rfl⟩
    rw [hg.id_eq n hn, nodeId_inj (hg.plain n hn) hplain] at hne
    exact ⟨⟨n, hn, rfl⟩, hne⟩
  · rintro ⟨⟨n, hn, rfl⟩, hne⟩
    refine ⟨n, ⟨hn, ?_⟩, rfl⟩
    rwa [hg.id_eq n hn, nodeId_inj (hg.plain n hn) hplain]

theorem IdsRight.removeNode (hg : g.IdsRight) (id : String) : (g.removeNode id).IdsRight where
  nodup_nodeIds := hg.nodup_nodeIds.sublist (List.filter_sublist.map _)
  id_eq n hn := hg.id_eq n (List.mem_of_mem_filter hn)
  plain n hn := hg.plain n (List.mem_of_mem_filter hn)

/-- An edge goes with either of its nodes. -/
theorem Closed.removeNode (hg : g.Closed) (id : String) : (g.removeNode id).Closed := by
  have hkeep {end' : String} (hend : g.containsNode end' = true) (hne : end' ≠ id) :
      (g.removeNode id).containsNode end' = true := by
    obtain ⟨n, hn, rfl⟩ := containsNode_iff.mp hend
    exact containsNode_iff.mpr ⟨n, List.mem_filter.mpr ⟨hn, by simpa using hne⟩, rfl⟩
  intro e he
  obtain ⟨he, htouch⟩ := List.mem_filter.mp he
  simp only [Bool.not_eq_true', Edge.touches, Bool.or_eq_false_iff, beq_eq_false_iff_ne] at htouch
  obtain ⟨hs, ht⟩ := hg e he
  exact ⟨hkeep hs htouch.1, hkeep ht htouch.2⟩

theorem WellFormed.removeNode (hg : g.WellFormed) (id : String) : (g.removeNode id).WellFormed where
  __ := hg.idsRight.removeNode id
  closed := Closed.removeNode hg.closed id
  simple := hg.simple.sublist (List.filter_sublist.map _)
  loopless e he := hg.loopless e (List.mem_of_mem_filter he)

/-! ## Removing a file -/

theorem foldl_removeNode (ids : List String) (g : Graph) :
    ids.foldl Graph.removeNode g =
      ⟨g.nodes.filter fun n => !ids.contains n.id,
        g.edges.filter fun e => !ids.contains e.source && !ids.contains e.target⟩ := by
  -- One after another, the nodes and edges that touch no id so far are kept.
  induction ids generalizing g with
  | nil => simp [List.filter_eq_self.mpr]
  | cons id ids ih =>
    rw [List.foldl_cons, ih, Graph.removeNode]
    simp only [List.filter_filter, List.contains_cons, Edge.touches]
    congr 1
    · exact List.filter_congr fun n _ => by rw [Bool.not_or, Bool.and_comm, bne]
    · refine List.filter_congr fun e _ => ?_
      cases e.source == id <;> cases e.target == id <;> simp

theorem fileNodes_of_not_hasFile (hfile : g.hasFile file = false) : g.fileNodes file = [] := by
  simpa [fileNodes, hasFile, List.filter_eq_nil_iff] using hfile

theorem sublist_edges_removeFile (g : Graph) (file : String) :
    (g.removeFile file).edges.Sublist g.edges := by
  rw [removeFile, foldl_removeNode]
  exact List.filter_sublist

theorem removeFile_of_not_hasFile (hfile : g.hasFile file = false) : g.removeFile file = g := by
  rw [removeFile, fileNodes_of_not_hasFile hfile]
  rfl

theorem IdsRight.removeFile (hg : g.IdsRight) (file : String) : (g.removeFile file).IdsRight :=
  List.foldlRecOn (motive := IdsRight) _ _ hg fun _ hh id _ => hh.removeNode id

theorem WellFormed.removeFile (hg : g.WellFormed) (file : String) :
    (g.removeFile file).WellFormed :=
  List.foldlRecOn (motive := WellFormed) _ _ hg fun _ hh id _ => hh.removeNode id

theorem WellFormed.mem_ids_fileNodes (hg : g.WellFormed) {n : Node} (hn : n ∈ g.nodes) :
    n.id ∈ (g.fileNodes file).map (·.id) ↔ n.source.file = file := by
  simp only [fileNodes, List.mem_map, List.mem_filter, beq_iff_eq]
  constructor
  · rintro ⟨m, ⟨hm, hfile⟩, hid⟩
    rw [← hg.eq_of_id_eq hm hn hid, hfile]
  · intro hfile
    exact ⟨n, ⟨hn, hfile⟩, rfl⟩

theorem mem_places_removeFile (hg : g.WellFormed) :
    place ∈ (g.removeFile file).places ↔ place ∈ g.places ∧ place.file ≠ file := by
  simp only [places, removeFile, foldl_removeNode, List.mem_map, List.mem_filter,
    Bool.not_eq_true', ← Bool.not_eq_true, List.contains_iff_mem]
  constructor
  · rintro ⟨n, ⟨hn, hid⟩, rfl⟩
    rw [← List.mem_map, hg.mem_ids_fileNodes hn] at hid
    exact ⟨⟨n, hn, rfl⟩, hid⟩
  · rintro ⟨⟨n, hn, rfl⟩, hne⟩
    refine ⟨n, ⟨hn, ?_⟩, rfl⟩
    rwa [← List.mem_map, hg.mem_ids_fileNodes hn]

theorem shows_removeFile (hg : g.WellFormed) {path : String} :
    (g.removeFile path).Shows file function ↔ g.Shows file function ∧ file ≠ path := by
  simp only [shows_iff_mem_places, mem_places_removeFile hg, exists_and_right]

theorem WellFormed.nodeId_mem_ids_fileNodes (hg : g.WellFormed) {path : String}
    (hshows : g.Shows file function) :
    nodeId file function ∈ (g.fileNodes path).map (·.id) ↔ file = path := by
  obtain ⟨n, hn, rfl, rfl⟩ := hshows
  rw [← hg.id_eq n hn, hg.mem_ids_fileNodes hn]

/-- Between two nodes that stay, all edges stay. -/
theorem hasEdge_removeFile (hg : g.WellFormed) {path file' function' : String}
    (hsource : (g.removeFile path).Shows file function)
    (htarget : (g.removeFile path).Shows file' function') :
    (g.removeFile path).hasEdge (nodeId file function) (nodeId file' function') = true ↔
      g.hasEdge (nodeId file function) (nodeId file' function') = true := by
  obtain ⟨hsource, hfile⟩ := (shows_removeFile hg).mp hsource
  obtain ⟨htarget, hfile'⟩ := (shows_removeFile hg).mp htarget
  simp only [removeFile, foldl_removeNode, hasEdge_iff, List.mem_filter, Bool.and_eq_true,
    Bool.not_eq_true', ← Bool.not_eq_true, List.contains_iff_mem]
  constructor
  · rintro ⟨e, ⟨he, -⟩, hs, ht⟩
    exact ⟨e, he, hs, ht⟩
  · rintro ⟨e, he, hs, ht⟩
    refine ⟨e, ⟨he, ?_, ?_⟩, hs, ht⟩
    · rwa [hs, hg.nodeId_mem_ids_fileNodes hsource]
    · rwa [ht, hg.nodeId_mem_ids_fileNodes htarget]

/-! ## Merging a file -/

theorem nodes_mergeFile (g : Graph) (path : String) (file : Graph) :
    (g.mergeFile path file).graph.nodes = (g.removeFile path).nodes ++ file.nodes :=
  nodes_foldl_addEdge id file.edges _

theorem prefix_edges_mergeFile (g : Graph) (path : String) (file : Graph) :
    (g.removeFile path).edges <+: (g.mergeFile path file).graph.edges :=
  prefix_edges_foldl_addEdge id file.edges ⟨(g.removeFile path).nodes ++ file.nodes, _⟩

end Graph

end Flowgraph

import Flowgraph.Proofs.Graph.Ids
import Flowgraph.Proofs.Graph.Nodes
import Flowgraph.Proofs.Outcome

/-!
# The search for a free id

The candidates for an id are tried in turn until one is free. In every graph the search ends, after one
candidate more than there are nodes at the latest, and so nodes that take their ids from it share none.
-/

namespace Flowgraph

namespace Graph

variable {g : Graph} {file function id id' path name : String} {line k m n : Nat} {new : CallGraph}
  {u v : Update}

/-! ## The search -/

/-- The search for a free id, taken up at candidate `k`, ends with the given id when the given number of
candidates has been tried. No bound is set to it. -/
inductive Finds (g : Graph) (file function : String) (line : Nat) : Nat → Nat → String → Prop
  | free {k : Nat} (hfree : g.containsNode (idCandidate file function line k) = false) :
      Finds g file function line k 1 (idCandidate file function line k)
  | taken {k n : Nat} {id : String} (htaken : g.containsNode (idCandidate file function line k) = true)
      (hnext : Finds g file function line (k + 1) n id) : Finds g file function line k (n + 1) id

/-- The search has one end. -/
theorem Finds.unique (h : g.Finds file function line k m id) (h' : g.Finds file function line k n id') :
    m = n ∧ id = id' := by
  induction h generalizing n id' with
  | free hfree =>
    cases h' with
    | free => exact ⟨rfl, rfl⟩
    | taken htaken =>
      rw [hfree] at htaken
      cases htaken
  | taken htaken _ ih =>
    cases h' with
    | free hfree =>
      rw [hfree] at htaken
      cases htaken
    | taken _ hnext' =>
      obtain ⟨rfl, rfl⟩ := ih hnext'
      exact ⟨rfl, rfl⟩

/-- The search ends at a free candidate at the latest. -/
theorem exists_finds_of_free (hfree : g.containsNode (idCandidate file function line (k + m)) = false) :
    ∃ n ≤ m + 1, ∃ id, g.Finds file function line k n id := by
  induction m generalizing k with
  | zero => exact ⟨1, Nat.le_refl 1, _, .free hfree⟩
  | succ m ih =>
    cases hk : g.containsNode (idCandidate file function line k) with
    | false => exact ⟨1, Nat.le_add_left 1 _, _, .free hk⟩
    | true =>
      rw [← Nat.add_assoc, Nat.add_right_comm] at hfree
      obtain ⟨n, hn, id, hnext⟩ := ih hfree
      exact ⟨n + 1, Nat.succ_le_succ hn, id, .taken hk hnext⟩

/-- Where as many candidates are at hand as the search tries, the first free one of them is its end. -/
theorem Finds.find?_eq (h : g.Finds file function line k m id) (hle : m ≤ n) :
    ((List.range' k n).map (idCandidate file function line)).find? (fun id => !g.containsNode id) =
      some id := by
  induction h generalizing n with
  | free hfree =>
    obtain ⟨n, rfl⟩ := Nat.exists_eq_add_of_le' hle
    rw [List.range'_succ, List.map_cons, List.find?_cons_of_pos (by simpa using hfree)]
  | taken htaken _ ih =>
    obtain ⟨n, rfl⟩ := Nat.exists_eq_add_of_le' (Nat.le_trans (Nat.le_add_left 1 _) hle)
    rw [List.range'_succ, List.map_cons, List.find?_cons_of_neg (by simpa using htaken)]
    exact ih (Nat.le_of_succ_le_succ hle)

/-- The search ends with the allocated id, whatever ids the nodes have. -/
theorem exists_finds_allocateId (g : Graph) (file function : String) (line : Nat) :
    ∃ n ≤ g.nodes.length + 1, g.Finds file function line 0 n (g.allocateId file function line) := by
  obtain ⟨k, hk, hfree⟩ := g.exists_free_candidate file function line
  rw [← Nat.zero_add k] at hfree
  obtain ⟨n, hn, id, hfinds⟩ := exists_finds_of_free hfree
  have hbound : n ≤ g.nodes.length + 1 := by omega
  refine ⟨n, hbound, ?_⟩
  rwa [allocateId, List.range_eq_range', hfinds.find?_eq hbound, Option.getD_some]

/-! ## Pushing nodes -/

/-- Adds a node under the id allocated for a function at a place. -/
def push (g : Graph) (p : Location × Node) : Graph :=
  g.addNode { p.2 with id := g.allocateId p.1.file p.1.function p.1.line }

theorem nodup_nodeIds_push (g : Graph) (p : Location × Node) :
    (g.push p).nodeIds.Nodup ↔ g.nodeIds.Nodup := by
  rw [push, nodup_nodeIds_addNode]
  exact and_iff_right (g.allocateId_not_mem_nodeIds _ _ _)

theorem nodup_nodeIds_foldl_push (g : Graph) (ps : List (Location × Node)) :
    (ps.foldl push g).nodeIds.Nodup ↔ g.nodeIds.Nodup := by
  induction ps generalizing g with
  | nil => exact Iff.rfl
  | cons p ps ih => rw [List.foldl_cons, ih, nodup_nodeIds_push]

/-- A difference pushes the pending node of a function, unless the function has a node that can be moved. -/
theorem nodup_nodeIds_addFunction (h : u.addFunction path new name = .ok v) :
    v.graph.nodeIds.Nodup ↔ u.graph.nodeIds.Nodup := by
  unfold Update.addFunction at h
  cases hf : new.get? name with
  | none =>
    simp only [hf] at h
    cases h
  | some f =>
    simp only [hf] at h
    split at h
    next =>
      cases h
      unfold Update.touchFunction
      split
      · exact Iff.rfl
      · rw [nodeIds_congr map_key_moveFunction]
    next =>
      cases h
      exact nodup_nodeIds_push u.graph (⟨path, f.startLine, name⟩, .ofFunction name path f)

/-! ## Allocation -/

/-- The search for a free id ends in every graph, with the allocated id and after one candidate more than
there are nodes at the most. That id is new, and so nodes that are pushed under allocated ids one after
another, those of the functions of a difference among them, share an id only if two nodes did before. -/
theorem finds_allocateId_and_nodup (g : Graph) :
    (∀ file function line,
      (∃ n ≤ g.nodes.length + 1, ∀ m id,
          g.Finds file function line 0 m id ↔ m = n ∧ id = g.allocateId file function line) ∧
        g.allocateId file function line ∉ g.nodeIds) ∧
      (∀ ps : List (Location × Node), (ps.foldl push g).nodeIds.Nodup ↔ g.nodeIds.Nodup) ∧
      ∀ path new (names : List String) patch u,
        names.foldlM (Update.addFunction path new) ⟨g, patch⟩ = .ok u →
          (u.graph.nodeIds.Nodup ↔ g.nodeIds.Nodup) := by
  refine ⟨fun file function line => ⟨?_, allocateId_not_mem_nodeIds g file function line⟩,
    nodup_nodeIds_foldl_push g, fun path new names patch u h => ?_⟩
  · obtain ⟨n, hn, hfinds⟩ := exists_finds_allocateId g file function line
    refine ⟨n, hn, fun m id => ⟨fun h => h.unique hfinds, ?_⟩⟩
    rintro ⟨rfl, rfl⟩
    exact hfinds
  · exact Outcome.foldlM_preserves (P := fun u => u.graph.nodeIds.Nodup ↔ g.nodeIds.Nodup)
      (fun u v name h hu => (nodup_nodeIds_addFunction h).trans hu) Iff.rfl h

/-- The plain id of a new function and the one with its line belong to nodes of another file. -/
theorem finds_allocateId_and_nodup_of_taken_ids :
    let g : Graph := ⟨[⟨"a.py::f", "Ask", "llm", ⟨"b.py", 2, "f"⟩, true, true, false, none⟩,
      ⟨"a.py::f::3", "Retry", "llm", ⟨"b.py", 4, "f"⟩, true, true, false, none⟩], []⟩
    let new := CallGraph.ofList [⟨"f", 3, 4, []⟩, ⟨"h", 6, 7, ["f"]⟩]
    g.allocateId "a.py" "f" 3 = "a.py::f::3-2" ∧ g.Finds "a.py" "f" 3 0 3 "a.py::f::3-2" ∧
      ∃ u, ["f", "h"].foldlM (Update.addFunction "a.py" new) ⟨g, .empty⟩ = .ok u ∧
        u.graph.nodeIds = ["a.py::f", "a.py::f::3", "a.py::f::3-2", "a.py::h"] ∧
        u.graph.nodeIds.Nodup := by
  intro g new
  obtain ⟨hsearch, -, hnodup⟩ := finds_allocateId_and_nodup g
  have hfinds : g.Finds "a.py" "f" 3 0 3 "a.py::f::3-2" :=
    .taken (by decide +kernel) (.taken (by decide +kernel) (.free (by decide +kernel)))
  obtain ⟨⟨n, -, hend⟩, -⟩ := hsearch "a.py" "f" 3
  obtain ⟨u, hu, hids⟩ := Outcome.exists_of_map_toOption (f := fun u : Update => u.graph.nodeIds)
    (show (["f", "h"].foldlM (Update.addFunction "a.py" new) ⟨g, .empty⟩).toOption.map
        (fun u => u.graph.nodeIds) = some ["a.py::f", "a.py::f::3", "a.py::f::3-2", "a.py::h"] by
      decide +kernel)
  exact ⟨((hend 3 _).mp hfinds).2.symm, hfinds, u, hu, hids, (hnodup _ _ _ _ u hu).mpr (by decide)⟩

end Graph

end Flowgraph

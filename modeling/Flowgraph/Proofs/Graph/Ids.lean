import Flowgraph.Proofs.Graph.WellFormed
import Mathlib.Data.List.Perm.Subperm
import Std.Data.String.ToNat

/-!
# Free ids

The ids that are tried for a function are all different, so that one of them is free in every graph,
whatever ids its nodes have.
-/

namespace Flowgraph

namespace Graph

variable {g : Graph} {file function : String} {line : Nat}

/-! ## Candidates -/

private theorem ne_append_self {s suffix : String} (hsuffix : suffix ≠ "") : s ≠ s ++ suffix := by
  intro h
  rw [← String.append_empty (s := s), String.append_assoc, String.append_right_inj] at h
  exact hsuffix (by simpa using h.symm)

/-- Every candidate but the plain one has the plain one and its line for a beginning. -/
theorem idCandidate_succ (k : Nat) : idCandidate file function line (k + 1) =
    nodeId file function ++ ("::" ++ toString line ++ if k = 0 then "" else "-" ++ toString (k + 1)) := by
  cases k with
  | zero => simp [idCandidate, String.append_assoc]
  | succ k => simp [idCandidate, String.append_assoc]

theorem idCandidate_injective (file function : String) (line : Nat) :
    Function.Injective (idCandidate file function line) := by
  have hplain (k : Nat) :
      idCandidate file function line 0 ≠ idCandidate file function line (k + 1) := by
    rw [idCandidate_succ, idCandidate]
    exact ne_append_self (by simp)
  intro j k h
  match j, k with
  | 0, 0 => rfl
  | 0, k + 1 => exact absurd h (hplain k)
  | j + 1, 0 => exact absurd h.symm (hplain j)
  | j + 1, k + 1 =>
    simp only [idCandidate_succ, String.append_right_inj] at h
    -- A numbered candidate is longer than the one with the line, and told from others by its number.
    cases j with
    | zero =>
      cases k with
      | zero => rfl
      | succ k => exact absurd h.symm (by simp)
    | succ j =>
      cases k with
      | zero => simp at h
      | succ k =>
        simp only [Nat.succ_ne_zero, if_false, String.append_right_inj, Nat.toString_eq_repr,
          Nat.repr_inj] at h
        rw [h]

/-! ## Allocation -/

/-- More different candidates are tried than there are ids in the graph. -/
theorem exists_free_candidate (g : Graph) (file function : String) (line : Nat) :
    ∃ k < g.nodes.length + 1, g.containsNode (idCandidate file function line k) = false := by
  by_contra hnone
  have htaken : (List.range (g.nodes.length + 1)).map (idCandidate file function line) ⊆ g.nodeIds := by
    intro id hid
    obtain ⟨k, hk, rfl⟩ := List.mem_map.mp hid
    by_contra hfree
    refine hnone ⟨k, List.mem_range.mp hk, ?_⟩
    rw [← Bool.not_eq_true, containsNode_iff, ← List.mem_map]
    exact hfree
  have hnodup : ((List.range (g.nodes.length + 1)).map (idCandidate file function line)).Nodup :=
    List.nodup_range.map (idCandidate_injective file function line)
  have hlength := (hnodup.subperm htaken).length_le
  simp only [List.length_map, List.length_range, nodeIds] at hlength
  omega

theorem containsNode_allocateId (g : Graph) (file function : String) (line : Nat) :
    g.containsNode (g.allocateId file function line) = false := by
  obtain ⟨k, hk, hfree⟩ := g.exists_free_candidate file function line
  unfold allocateId
  cases hfind : ((List.range (g.nodes.length + 1)).map (idCandidate file function line)).find?
      fun id => !g.containsNode id with
  | none =>
    have hmem := List.mem_map_of_mem (f := idCandidate file function line) (List.mem_range.mpr hk)
    exact absurd hfree (by simpa using List.find?_eq_none.mp hfind _ hmem)
  | some id => simpa using List.find?_some hfind

theorem allocateId_not_mem_nodeIds (g : Graph) (file function : String) (line : Nat) :
    g.allocateId file function line ∉ g.nodeIds := by
  intro hmem
  have hfree := g.containsNode_allocateId file function line
  rw [containsNode_iff.mpr (List.mem_map.mp hmem)] at hfree
  cases hfree

/-- The id of the name is the first one that is tried. -/
theorem allocateId_of_free (hfree : g.containsNode (nodeId file function) = false) :
    g.allocateId file function line = nodeId file function := by
  rw [allocateId, List.range_succ_eq_map, List.map_cons, List.find?_cons_of_pos]
  · rfl
  · simpa [idCandidate] using hfree

/-- A function without a node gets the id of its name. -/
theorem IdsRight.allocateId_eq (hg : g.IdsRight) (hplain : IsPlainName function)
    (hnew : ¬ g.Shows file function) (line : Nat) :
    g.allocateId file function line = nodeId file function := by
  refine allocateId_of_free ?_
  rw [← Bool.not_eq_true, hg.containsNode_nodeId hplain]
  exact hnew

end Graph

end Flowgraph

import Flowgraph.Proofs.CallGraph

/-!
# Faithful differences

The difference of two call graphs misses no change and reports none that has not been made. What it says
of functions and what it says of calls are found independently of each other, and agree.
-/

namespace Flowgraph

namespace CallGraphDiff

variable {d : CallGraphDiff}

/-- The delta that leads back. -/
def reverse (d : CallGraphDiff) : CallGraphDiff where
  addedFunctions := d.removedFunctions
  removedFunctions := d.addedFunctions
  modifiedFunctions := d.modifiedFunctions
  addedEdges := d.removedEdges
  removedEdges := d.addedEdges

theorem isEmpty_iff_eq_empty : d.isEmpty = true ↔ d = ⟨∅, ∅, ∅, ∅, ∅⟩ := by
  cases d
  simp only [isEmpty, Bool.and_eq_true, Std.ExtTreeSet.isEmpty_iff, and_assoc, mk.injEq]

theorem mem_applyToKeys {keys : Std.ExtTreeSet String} {name : String} :
    name ∈ d.applyToKeys keys ↔ name ∈ keys ∧ name ∉ d.removedFunctions ∨ name ∈ d.addedFunctions := by
  simp only [applyToKeys, Std.ExtTreeSet.mem_union_iff, OrderedSet.mem_filter, Bool.not_eq_true',
    ← Bool.not_eq_true, Std.ExtTreeSet.contains_iff_mem]

/-- The delta tells how to get from one revision of a file to another, and its parts agree. -/
structure IsFaithful (d : CallGraphDiff) (old new : CallGraph) : Prop where
  isEmpty_iff : d.isEmpty = true ↔ old = new
  applyToKeys_eq : d.applyToKeys old.nameSet = new.nameSet
  edges_eq : (old.edges \ d.removedEdges) ∪ d.addedEdges = new.edges
  removedEdges_subset : ∀ e ∈ d.removedEdges, e ∈ old.edges
  addedEdges_disjoint : ∀ e ∈ d.addedEdges, e ∉ old.edges
  added_removed_disjoint : ∀ name ∈ d.addedFunctions, name ∉ d.removedFunctions
  added_modified_disjoint : ∀ name ∈ d.addedFunctions, name ∉ d.modifiedFunctions
  removed_modified_disjoint : ∀ name ∈ d.removedFunctions, name ∉ d.modifiedFunctions
  /-- No call comes but with its function or a change of it. -/
  caller_of_added : ∀ e ∈ d.addedEdges, e.1 ∈ d.addedFunctions ∨ e.1 ∈ d.modifiedFunctions
  /-- No call goes but with its function or a change of it. -/
  caller_of_removed : ∀ e ∈ d.removedEdges, e.1 ∈ d.removedFunctions ∨ e.1 ∈ d.modifiedFunctions

end CallGraphDiff

namespace CallGraph

variable {old new : CallGraph} {name caller callee : String} {f f' : FunctionInfo}

/-! ## Functions -/

/-- Two functions of one name are the same if they have the same calls and lines. -/
theorem isModified_iff_ne (hold : old.get? name = some f) (hnew : new.get? name = some f') :
    isModified old new name = true ↔ f ≠ f' := by
  have hname : f.name = f'.name := (name_of_get? hold).trans (name_of_get? hnew).symm
  cases f
  cases f'
  simp only at hname
  simp only [isModified, hold, hnew, bne_iff_ne, Bool.or_eq_true, ne_eq, FunctionInfo.mk.injEq, hname]
  grind

theorem mem_modifiedFunctions_iff_ne : name ∈ (old.diff new).modifiedFunctions ↔
    ∃ f f', old.get? name = some f ∧ new.get? name = some f' ∧ f ≠ f' := by
  constructor
  · intro hmodified
    obtain ⟨hold, hnew⟩ := contains_of_mem_modifiedFunctions hmodified
    obtain ⟨f, hf⟩ := contains_iff.mp hold
    obtain ⟨f', hf'⟩ := contains_iff.mp hnew
    exact ⟨f, f', hf, hf', (isModified_iff_ne hf hf').mp (mem_modifiedFunctions.mp hmodified).2⟩
  · rintro ⟨f, f', hf, hf', hne⟩
    exact mem_modifiedFunctions.mpr ⟨contains_iff.mpr ⟨f, hf⟩, (isModified_iff_ne hf hf').mpr hne⟩

/-- What has neither come nor gone nor changed is the same function in both call graphs, or in neither. -/
theorem get?_eq_of_not_mem (hadded : name ∉ (old.diff new).addedFunctions)
    (hremoved : name ∉ (old.diff new).removedFunctions)
    (hmodified : name ∉ (old.diff new).modifiedFunctions) : old.get? name = new.get? name := by
  rw [mem_addedFunctions, contains_eq_isSome, contains_eq_isSome] at hadded
  rw [mem_removedFunctions, contains_eq_isSome, contains_eq_isSome] at hremoved
  rw [mem_modifiedFunctions_iff_ne] at hmodified
  cases hold : old.get? name with
  | none =>
    cases hnew : new.get? name with
    | none => rfl
    | some f' => simp [hold, hnew] at hadded
  | some f =>
    cases hnew : new.get? name with
    | none => simp [hold, hnew] at hremoved
    | some f' =>
      have hsame : f = f' := Classical.not_not.mp fun hne => hmodified ⟨f, f', hold, hnew, hne⟩
      rw [hsame]

theorem diff_self (g : CallGraph) : g.diff g = ⟨∅, ∅, ∅, ∅, ∅⟩ := by
  have hmodified (name : String) : isModified g g name = false := by
    cases hget : g.get? name <;> simp [isModified, hget]
  rw [diff, CallGraphDiff.mk.injEq]
  refine ⟨?_, ?_, ?_, ?_, ?_⟩ <;> refine Std.ExtTreeSet.ext_mem fun x => ?_ <;>
    simp [hmodified]

theorem isEmpty_diff_iff : (old.diff new).isEmpty = true ↔ old = new := by
  rw [CallGraphDiff.isEmpty_iff_eq_empty]
  constructor
  · intro hempty
    refine CallGraph.ext fun name => ?_
    exact get?_eq_of_not_mem (by simp [hempty]) (by simp [hempty]) (by simp [hempty])
  · rintro rfl
    exact diff_self old

theorem applyToKeys_diff (old new : CallGraph) :
    (old.diff new).applyToKeys old.nameSet = new.nameSet := by
  refine Std.ExtTreeSet.ext_mem fun name => ?_
  rw [CallGraphDiff.mem_applyToKeys, mem_nameSet, mem_nameSet, mem_removedFunctions, mem_addedFunctions]
  cases old.contains name <;> cases new.contains name <;> simp

/-! ## Calls -/

theorem edges_diff (old new : CallGraph) :
    (old.edges \ (old.diff new).removedEdges) ∪ (old.diff new).addedEdges = new.edges := by
  refine Std.ExtTreeSet.ext_mem fun e => ?_
  rw [Std.ExtTreeSet.mem_union_iff, Std.ExtTreeSet.mem_diff_iff, mem_removedEdges, mem_addedEdges]
  by_cases hold : e ∈ old.edges
  · simp [hold]
  · simp [hold]

/-- A call of the later revision alone is made by a function that has come or has changed. -/
theorem caller_of_mem_addedEdges (hcall : (caller, callee) ∈ (old.diff new).addedEdges) :
    caller ∈ (old.diff new).addedFunctions ∨ caller ∈ (old.diff new).modifiedFunctions := by
  obtain ⟨hnew, hold⟩ := mem_addedEdges.mp hcall
  obtain ⟨f', hf', hmem⟩ := mem_edges.mp hnew
  cases hf : old.get? caller with
  | none =>
    refine .inl (mem_addedFunctions.mpr ⟨contains_iff.mpr ⟨f', hf'⟩, ?_⟩)
    rw [contains_eq_isSome, hf, Option.isSome_none]
  | some f =>
    refine .inr (mem_modifiedFunctions_iff_ne.mpr ⟨f, f', hf, hf', ?_⟩)
    rintro rfl
    exact hold (mem_edges.mpr ⟨f, hf, hmem⟩)

/-! ## The way back -/

theorem mem_modifiedFunctions_comm :
    name ∈ (new.diff old).modifiedFunctions ↔ name ∈ (old.diff new).modifiedFunctions := by
  simp only [mem_modifiedFunctions_iff_ne]
  constructor
  · rintro ⟨f', f, hf', hf, hne⟩
    exact ⟨f, f', hf, hf', hne.symm⟩
  · rintro ⟨f, f', hf, hf', hne⟩
    exact ⟨f', f, hf', hf, hne.symm⟩

theorem diff_reverse (old new : CallGraph) : new.diff old = (old.diff new).reverse := by
  have hmodified : (new.diff old).modifiedFunctions = (old.diff new).modifiedFunctions :=
    Std.ExtTreeSet.ext_mem fun name => mem_modifiedFunctions_comm
  rw [CallGraphDiff.reverse, ← hmodified]
  rfl

/-! ## Faithfulness -/

/-- The difference of any two call graphs is a faithful delta from the one to the other, and the delta
back is the same with what comes and what goes exchanged. -/
theorem isFaithful_diff (old new : CallGraph) :
    (old.diff new).IsFaithful old new ∧ new.diff old = (old.diff new).reverse := by
  refine ⟨?_, diff_reverse old new⟩
  exact {
    isEmpty_iff := isEmpty_diff_iff
    applyToKeys_eq := applyToKeys_diff old new
    edges_eq := edges_diff old new
    removedEdges_subset := fun e he => (mem_removedEdges.mp he).1
    addedEdges_disjoint := fun e he => (mem_addedEdges.mp he).2
    added_removed_disjoint := fun name hadded hremoved =>
      not_mem_addedFunctions_of_mem_removedFunctions hremoved hadded
    added_modified_disjoint := by
      intro name hadded hmodified
      have hold := (contains_of_mem_modifiedFunctions hmodified).1
      rw [(mem_addedFunctions.mp hadded).2] at hold
      cases hold
    removed_modified_disjoint := by
      intro name hremoved hmodified
      have hnew := (contains_of_mem_modifiedFunctions hmodified).2
      rw [(mem_removedFunctions.mp hremoved).2] at hnew
      cases hnew
    caller_of_added := fun _ => caller_of_mem_addedEdges
    -- A call that goes is one that comes on the way back.
    caller_of_removed := by
      intro e hremoved
      have hback : e ∈ (new.diff old).addedEdges := by
        rw [diff_reverse old new]
        exact hremoved
      have hcaller := caller_of_mem_addedEdges hback
      rw [diff_reverse old new] at hcaller
      exact hcaller }

end CallGraph

end Flowgraph

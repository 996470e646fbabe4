import Flowgraph.Call
import Flowgraph.CallGraph.Diff
import Flowgraph.Proofs.Ordered

/-!
# Functions and calls of a call graph

Membership in the lists and sets that are read off a call graph, the calls that stay in the file, and
what a difference of two call graphs holds.
-/

namespace Flowgraph

/-- A name that cannot be confused with the separator of node ids. -/
def IsPlainName (name : String) : Prop := ':' ∉ name.toList

namespace CallGraph

variable {g h old new : CallGraph} {name caller callee : String} {f : FunctionInfo}

/-! ## Functions -/

theorem name_of_get? (hf : g.get? name = some f) : f.name = name := g.name_eq name f hf

theorem contains_iff : g.contains name = true ↔ ∃ f, g.get? name = some f := by
  rw [contains_eq_isSome, Option.isSome_iff_exists]

theorem not_contains_empty : empty.contains name = false := by
  rw [contains_eq_isSome, get?_empty, Option.isSome_none]

/-- Of several functions of a name, the last one that is inserted stays. -/
theorem get?_foldl_insert {fs : List FunctionInfo} (hf : (fs.foldl insert g).get? name = some f) :
    (∃ before after, fs = before ++ f :: after ∧ f.name = name ∧ ∀ f' ∈ after, f'.name ≠ name) ∨
      (∀ f' ∈ fs, f'.name ≠ name) ∧ g.get? name = some f := by
  induction fs generalizing g with
  | nil => exact .inr ⟨fun f' hf' => absurd hf' List.not_mem_nil, hf⟩
  | cons head fs ih =>
    rcases ih hf with ⟨before, after, rfl, hname, hafter⟩ | ⟨hrest, hhead⟩
    · exact .inl ⟨head :: before, after, rfl, hname, hafter⟩
    · rw [get?_insert] at hhead
      split at hhead
      next hname =>
        obtain rfl := Option.some.inj hhead
        exact .inl ⟨[], fs, rfl, hname, hrest⟩
      next hname => exact .inr ⟨List.forall_mem_cons.mpr ⟨hname, hrest⟩, hhead⟩

theorem contains_foldl_insert {fs : List FunctionInfo} :
    (fs.foldl insert g).contains name = true ↔ (∃ f ∈ fs, f.name = name) ∨ g.contains name = true := by
  induction fs generalizing g with
  | nil => simp
  | cons head fs ih =>
    have hhead : (g.insert head).contains name = true ↔ head.name = name ∨ g.contains name = true := by
      rw [contains_eq_isSome, get?_insert, contains_eq_isSome]
      by_cases hname : head.name = name <;> simp [hname]
    simp only [List.foldl_cons, ih, hhead, List.mem_cons, exists_eq_or_imp]
    rw [or_left_comm, or_assoc]

@[simp]
theorem mem_toList : f ∈ g.toList ↔ g.get? f.name = some f := by
  rw [toList, OrderedMap.values_eq_map_toList, List.mem_map]
  -- A function stands under its own name, so that the key need not be told.
  constructor
  · rintro ⟨⟨key, f'⟩, hmem, rfl⟩
    rw [Std.ExtTreeMap.mem_toList_iff_getElem?_eq_some] at hmem
    rw [g.name_eq key f' hmem]
    exact hmem
  · intro hf
    exact ⟨(f.name, f), Std.ExtTreeMap.mem_toList_iff_getElem?_eq_some.mpr hf, rfl⟩

/-- The functions of a list are all that is stored of it. -/
theorem mem_of_mem_toList_ofList {fs : List FunctionInfo} (hf : f ∈ (ofList fs).toList) : f ∈ fs := by
  obtain ⟨before, after, rfl, -⟩ | ⟨-, hempty⟩ := get?_foldl_insert (mem_toList.mp hf)
  · exact List.mem_append_cons_self
  · rw [get?_empty] at hempty
    cases hempty

theorem map_name_toList (g : CallGraph) : g.toList.map (·.name) = g.names := by
  rw [toList, names, OrderedMap.values_eq_map_toList, List.map_map,
    ← Std.ExtTreeMap.map_fst_toList_eq_keys]
  refine List.map_congr_left fun entry hentry => ?_
  exact g.name_eq _ _ (Std.ExtTreeMap.mem_toList_iff_getElem?_eq_some.mp hentry)

theorem nodup_names (g : CallGraph) : g.names.Nodup := g.functions.nodup_keys

/-- The names of the functions in the order of the list. No name stands twice. -/
theorem nodup_map_name_toList (g : CallGraph) : (g.toList.map (·.name)).Nodup :=
  g.map_name_toList ▸ g.nodup_names

@[simp]
theorem mem_nameSet : name ∈ g.nameSet ↔ g.contains name = true := by
  rw [nameSet, Std.ExtTreeSet.mem_ofList, List.contains_iff_mem, names, Std.ExtTreeMap.mem_keys]
  rfl

/-! ## Calls -/

@[simp]
theorem mem_edges : (caller, callee) ∈ g.edges ↔ ∃ f, g.get? caller = some f ∧ callee ∈ f.calls := by
  rw [edges, Std.ExtTreeSet.mem_ofList, List.contains_iff_mem, List.mem_flatMap]
  constructor
  · rintro ⟨f, hf, hcall⟩
    obtain ⟨call, hmem, heq⟩ := List.mem_map.mp hcall
    obtain ⟨rfl, rfl⟩ := Prod.mk.inj heq
    exact ⟨f, mem_toList.mp hf, hmem⟩
  · rintro ⟨f, hf, hmem⟩
    have hname := name_of_get? hf
    refine ⟨f, mem_toList.mpr (hname ▸ hf), List.mem_map.mpr ⟨callee, hmem, ?_⟩⟩
    rw [hname]

/-- A call between two different functions of the file: one that names no module. -/
def Links (g : CallGraph) (caller callee : String) : Prop :=
  (∃ f, g.get? caller = some f ∧ callee ∈ f.calls) ∧ '.' ∉ callee.toList ∧ callee ≠ caller ∧
    g.contains callee = true

theorem Links.contains_caller (hlink : g.Links caller callee) : g.contains caller = true := by
  obtain ⟨⟨f, hf, -⟩, -⟩ := hlink
  exact contains_iff.mpr ⟨f, hf⟩

theorem Links.contains_callee (hlink : g.Links caller callee) : g.contains callee = true :=
  hlink.2.2.2

theorem Links.ne (hlink : g.Links caller callee) : callee ≠ caller := hlink.2.2.1

/-- Every function has a name that cannot be confused with the separator of node ids. -/
def HasPlainNames (g : CallGraph) : Prop := ∀ name, g.contains name = true → IsPlainName name

theorem hasPlainNames_empty : empty.HasPlainNames := by
  intro name hname
  rw [not_contains_empty] at hname
  cases hname

/-! ## Differences -/

@[simp]
theorem mem_addedFunctions :
    name ∈ (old.diff new).addedFunctions ↔ new.contains name = true ∧ old.contains name = false := by
  simp only [diff, OrderedSet.mem_filter, mem_nameSet, Bool.not_eq_true']

@[simp]
theorem mem_removedFunctions :
    name ∈ (old.diff new).removedFunctions ↔ old.contains name = true ∧ new.contains name = false := by
  simp only [diff, OrderedSet.mem_filter, mem_nameSet, Bool.not_eq_true']

theorem not_mem_addedFunctions_of_mem_removedFunctions (h : name ∈ (old.diff new).removedFunctions) :
    name ∉ (old.diff new).addedFunctions := by
  intro hadded
  rw [mem_removedFunctions] at h
  rw [mem_addedFunctions, h.2] at hadded
  exact Bool.false_ne_true hadded.1

@[simp]
theorem mem_modifiedFunctions :
    name ∈ (old.diff new).modifiedFunctions ↔
      old.contains name = true ∧ isModified old new name = true := by
  simp only [diff, OrderedSet.mem_filter, mem_nameSet]

@[simp]
theorem mem_addedEdges {e : StringPair} :
    e ∈ (old.diff new).addedEdges ↔ e ∈ new.edges ∧ e ∉ old.edges := by
  rw [diff, OrderedSet.mem_filter, Bool.not_eq_true', ← Bool.not_eq_true,
    Std.ExtTreeSet.contains_iff_mem]

@[simp]
theorem mem_removedEdges {e : StringPair} :
    e ∈ (old.diff new).removedEdges ↔ e ∈ old.edges ∧ e ∉ new.edges := by
  rw [diff, OrderedSet.mem_filter, Bool.not_eq_true', ← Bool.not_eq_true,
    Std.ExtTreeSet.contains_iff_mem]

theorem contains_of_mem_modifiedFunctions (hname : name ∈ (old.diff new).modifiedFunctions) :
    old.contains name = true ∧ new.contains name = true := by
  obtain ⟨hold, hmod⟩ := mem_modifiedFunctions.mp hname
  refine ⟨hold, ?_⟩
  cases hnew : new.get? name with
  | none => cases hget : old.get? name <;> simp [isModified, hget, hnew] at hmod
  | some f => exact contains_iff.mpr ⟨f, hnew⟩

/-- A function of both call graphs that does not count as modified stays on its line. -/
theorem startLine_eq_of_not_modified {f f' : FunctionInfo} (hold : old.get? name = some f)
    (hnew : new.get? name = some f') (hname : name ∉ (old.diff new).modifiedFunctions) :
    f.startLine = f'.startLine := by
  have hmod : isModified old new name = false := by
    cases hm : isModified old new name with
    | false => rfl
    | true => exact absurd (mem_modifiedFunctions.mpr ⟨contains_iff.mpr ⟨f, hold⟩, hm⟩) hname
  simp only [isModified, hold, hnew, Bool.or_eq_false_iff, bne_eq_false_iff_eq] at hmod
  exact hmod.1.2

/-- The calls of the later revision are those of the earlier one that stay between functions that do, and
those that come with the call or with the callee. -/
theorem links_iff_stays_or_comes (old new : CallGraph) : new.Links caller callee ↔
    (old.Links caller callee ∧ new.contains caller = true ∧ new.contains callee = true ∧
      (caller, callee) ∉ (old.diff new).removedEdges) ∨
    ((caller, callee) ∈ (old.diff new).addedEdges ∨ callee ∈ (old.diff new).addedFunctions) ∧
      new.Links caller callee := by
  constructor
  · intro hlink
    obtain ⟨hcall, hdot, hne, hcallee⟩ := id hlink
    have hnew : (caller, callee) ∈ new.edges := mem_edges.mpr hcall
    by_cases hold : (caller, callee) ∈ old.edges
    · cases hget : old.contains callee with
      | true =>
        exact .inl ⟨⟨mem_edges.mp hold, hdot, hne, hget⟩, hlink.contains_caller, hcallee,
          fun hgone => (mem_removedEdges.mp hgone).2 hnew⟩
      -- The call is older than its callee, and no edge could be drawn for it before.
      | false => exact .inr ⟨.inr (mem_addedFunctions.mpr ⟨hcallee, hget⟩), hlink⟩
    · exact .inr ⟨.inl (mem_addedEdges.mpr ⟨hnew, hold⟩), hlink⟩
  · rintro (⟨⟨hcall, hdot, hne, -⟩, -, hcallee, hkept⟩ | ⟨-, hlink⟩)
    · have hnew : (caller, callee) ∈ new.edges := Classical.not_not.mp fun hgone =>
        hkept (mem_removedEdges.mpr ⟨mem_edges.mpr hcall, hgone⟩)
      exact ⟨mem_edges.mp hnew, hdot, hne, hcallee⟩
    · exact hlink

end CallGraph

end Flowgraph

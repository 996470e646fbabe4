import Std.Data.ExtTreeSet

/-!
# Ordered maps and sets

What filtering a set keeps, the values of a map, and the least element of a set with a property.
-/

namespace Flowgraph

namespace OrderedSet

variable {α : Type u} {cmp : α → α → Ordering} [Std.TransCmp cmp] [Std.LawfulEqCmp cmp]

@[simp]
theorem mem_filter {s : Std.ExtTreeSet α cmp} {p : α → Bool} {a : α} :
    a ∈ s.filter p ↔ a ∈ s ∧ p a = true := by
  have h := Std.ExtTreeMap.mem_filter (t := s.inner) (f := fun a _ => p a) (k := a)
  simp only [Std.ExtTreeMap.getKey_eq] at h
  exact h.trans exists_prop

theorem nodup_toList (s : Std.ExtTreeSet α cmp) : s.toList.Nodup :=
  s.ordered_toList.imp fun {a b} hlt heq => by
    have hself : cmp b b = .eq := Std.ReflCmp.compare_self
    rw [heq, hself] at hlt
    cases hlt

theorem toList_insert_empty (a : α) : ((∅ : Std.ExtTreeSet α cmp).insert a).toList = [a] := by
  refine List.perm_singleton.mp ((List.perm_ext_iff_of_nodup (nodup_toList _)
    (List.pairwise_singleton _ a)).mpr fun b => ?_)
  have hcompare : cmp a b = .eq ↔ b = a :=
    ⟨fun heq => (Std.LawfulEqCmp.eq_of_compare heq).symm, fun heq => heq ▸ Std.ReflCmp.compare_self⟩
  simp [Std.ExtTreeSet.mem_toList, Std.ExtTreeSet.mem_insert, hcompare]

omit [Std.LawfulEqCmp cmp] in
private theorem find?_eq_some_of_pairwise {l : List α} (hl : l.Pairwise fun a b => cmp a b = .lt)
    {p : α → Bool} {a : α} :
    l.find? p = some a ↔ a ∈ l ∧ p a = true ∧ ∀ b ∈ l, p b = true → b = a ∨ cmp a b = .lt := by
  -- The head lies before all others, so it is the least one if it has the property.
  induction l with
  | nil => simp
  | cons c l ih =>
    obtain ⟨hc, hl⟩ := List.pairwise_cons.mp hl
    by_cases hpc : p c = true
    · rw [List.find?_cons_of_pos hpc, Option.some.injEq]
      constructor
      · rintro rfl
        refine ⟨List.mem_cons_self, hpc, fun b hb _ => ?_⟩
        exact (List.mem_cons.mp hb).imp_right (hc b)
      · rintro ⟨ha, -, hleast⟩
        rcases List.mem_cons.mp ha with rfl | ha
        · rfl
        · rcases hleast c List.mem_cons_self hpc with rfl | hlt
          · rfl
          · have hswap : cmp a c = (cmp c a).swap := Std.OrientedCmp.eq_swap
            simp [hlt, hc a ha] at hswap
    · rw [List.find?_cons_of_neg hpc, ih hl]
      constructor
      · rintro ⟨ha, hpa, hleast⟩
        refine ⟨List.mem_cons_of_mem c ha, hpa, fun b hb hpb => ?_⟩
        rcases List.mem_cons.mp hb with rfl | hb
        · exact absurd hpb hpc
        · exact hleast b hb hpb
      · rintro ⟨ha, hpa, hleast⟩
        rcases List.mem_cons.mp ha with rfl | ha
        · exact absurd hpa hpc
        · exact ⟨ha, hpa, fun b hb => hleast b (List.mem_cons_of_mem c hb)⟩

/-- The first element of a set with a property is the least one. -/
theorem find?_toList_eq_some {s : Std.ExtTreeSet α cmp} {p : α → Bool} {a : α} :
    s.toList.find? p = some a ↔ a ∈ s ∧ p a = true ∧ ∀ b ∈ s, p b = true → b = a ∨ cmp a b = .lt := by
  simp only [find?_eq_some_of_pairwise s.ordered_toList, Std.ExtTreeSet.mem_toList]

/-- With a new element, the first one with a property is the same or the new one. -/
theorem find?_toList_insert (s : Std.ExtTreeSet α cmp) (p : α → Bool) (b : α) :
    (s.insert b).toList.find? p = s.toList.find? p ∨ (s.insert b).toList.find? p = some b := by
  have hold {c : α} (hc : c ∈ s) : c ∈ s.insert b :=
    Std.ExtTreeSet.mem_insert.mpr (.inr hc)
  cases hfind : (s.insert b).toList.find? p with
  | none =>
    refine .inl (Eq.symm (List.find?_eq_none.mpr fun c hc => ?_))
    have hc' := Std.ExtTreeSet.mem_toList.mpr (hold (Std.ExtTreeSet.mem_toList.mp hc))
    exact List.find?_eq_none.mp hfind c hc'
  | some a =>
    obtain ⟨ha, hpa, hleast⟩ := find?_toList_eq_some.mp hfind
    rcases Std.ExtTreeSet.mem_insert.mp ha with heq | ha
    · exact .inr (congrArg some (Std.LawfulEqCmp.eq_of_compare heq).symm)
    · exact .inl (find?_toList_eq_some.mpr ⟨ha, hpa, fun c hc => hleast c (hold hc)⟩).symm

end OrderedSet

namespace OrderedMap

variable {α : Type u} {β : Type v} {cmp : α → α → Ordering} [Std.TransCmp cmp]

theorem values_eq_map_toList (m : Std.ExtTreeMap α β cmp) : m.values = m.toList.map (·.2) := by
  -- The library relates the two lists only for the trees that stand behind a map.
  obtain ⟨⟨q⟩⟩ := m
  induction q using Quotient.ind
  next t =>
    have hvalues : t.values = t.inner.toListModel.map (·.2) :=
      Std.DTreeMap.Internal.Impl.values_eq_map_snd
    have hlist : Std.DTreeMap.Const.toList t = t.inner.toListModel.map fun e => (e.1, e.2) :=
      Std.DTreeMap.Internal.Impl.Const.toList_eq_toListModel_map
    change t.values = (Std.DTreeMap.Const.toList t).map (·.2)
    rw [hvalues, hlist, List.map_map]
    rfl

theorem mem_of_getElem? {m : Std.ExtTreeMap α β cmp} {k : α} {v : β} (h : m[k]? = some v) : k ∈ m := by
  rw [Std.ExtTreeMap.mem_iff_isSome_getElem?, h]
  rfl

theorem toList_insert_empty [Std.LawfulEqCmp cmp] (k : α) (v : β) :
    ((∅ : Std.ExtTreeMap α β cmp).insert k v).toList = [(k, v)] := by
  obtain ⟨e, he⟩ := List.length_eq_one_iff.mp
    ((Std.ExtTreeMap.length_toList (t := (∅ : Std.ExtTreeMap α β cmp).insert k v)).trans
      (by simp [Std.ExtTreeMap.size_insert]))
  have hmem : (k, v) ∈ ((∅ : Std.ExtTreeMap α β cmp).insert k v).toList :=
    Std.ExtTreeMap.mem_toList_iff_getElem?_eq_some.mpr (by simp)
  rw [he] at hmem ⊢
  rw [List.mem_singleton.mp hmem]

/-- A map that has a value for a key already stays as it is when this value is put in again. -/
theorem insert_of_getElem? [Std.LawfulEqCmp cmp] {m : Std.ExtTreeMap α β cmp} {k : α} {v : β}
    (h : m[k]? = some v) : m.insert k v = m := by
  refine Std.ExtTreeMap.ext_getElem? fun a => ?_
  rw [Std.ExtTreeMap.getElem?_insert]
  split
  next heq => rw [← Std.LawfulEqCmp.eq_of_compare heq, h]
  next => rfl

/-- A map is made of its own list. -/
theorem ofList_toList [Std.LawfulEqCmp cmp] [BEq α] [Std.LawfulBEqCmp cmp]
    (m : Std.ExtTreeMap α β cmp) :
    Std.ExtTreeMap.ofList m.toList cmp = m := by
  refine Std.ExtTreeMap.ext_getElem? fun k => ?_
  cases hk : m[k]? with
  | some v =>
    have hmem : (k, v) ∈ m.toList := Std.ExtTreeMap.mem_toList_iff_getElem?_eq_some.mpr hk
    exact Std.ExtTreeMap.getElem?_ofList_of_mem Std.ReflCmp.compare_self
      Std.ExtTreeMap.distinct_keys_toList hmem
  | none =>
    have hkeys : (m.toList.map Prod.fst).contains k = false := by
      rw [Std.ExtTreeMap.map_fst_toList_eq_keys, Std.ExtTreeMap.contains_keys,
        Std.ExtTreeMap.contains_eq_isSome_getElem?, hk]
      rfl
    exact Std.ExtTreeMap.getElem?_ofList_of_contains_eq_false hkeys

end OrderedMap

end Flowgraph

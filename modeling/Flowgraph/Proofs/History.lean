/-!
# Histories

What has happened in a history and has not been ended since.
-/

namespace Flowgraph

/-- An element of a history with a last step is that step, or one of those before it. -/
theorem append_singleton_eq_append_cons {α : Type} {l before after : List α} {a b : α} :
    l ++ [a] = before ++ b :: after ↔
      (after = [] ∧ before = l ∧ b = a) ∨ ∃ rest, after = rest ++ [a] ∧ l = before ++ b :: rest := by
  constructor
  · intro heq
    rcases after.eq_nil_or_concat with rfl | ⟨rest, last, rfl⟩
    · obtain ⟨rfl, hlast⟩ := List.append_inj' heq rfl
      exact .inl ⟨rfl, rfl, (List.singleton_inj.mp hlast).symm⟩
    · rw [List.concat_eq_append, ← List.cons_append, ← List.append_assoc] at heq
      obtain ⟨rfl, hlast⟩ := List.append_inj' heq rfl
      obtain rfl := List.singleton_inj.mp hlast
      exact .inr ⟨rest, List.concat_eq_append, rfl⟩
  · rintro (⟨rfl, rfl, rfl⟩ | ⟨rest, rfl, rfl⟩)
    · rfl
    · simp

/-- Whether something has happened that nothing has ended since. -/
def Since {α : Type} (happens ends : α → Prop) (l : List α) : Prop :=
  ∃ before a after, l = before ++ a :: after ∧ happens a ∧ ∀ b ∈ after, ¬ ends b

theorem not_since_nil {α : Type} {happens ends : α → Prop} : ¬ Since happens ends [] := by
  rintro ⟨before, a, after, heq, -⟩
  exact List.append_ne_nil_of_right_ne_nil before (List.cons_ne_nil a after) heq.symm

theorem Since.exists_mem {α : Type} {happens ends : α → Prop} {l : List α} (h : Since happens ends l) :
    ∃ a ∈ l, happens a := by
  obtain ⟨before, a, after, rfl, ha, -⟩ := h
  exact ⟨a, List.mem_append_right _ List.mem_cons_self, ha⟩

theorem since_append_singleton {α : Type} {happens ends : α → Prop} {l : List α} {a : α} :
    Since happens ends (l ++ [a]) ↔ happens a ∨ Since happens ends l ∧ ¬ ends a := by
  constructor
  · rintro ⟨before, b, after, heq, hb, hafter⟩
    rcases append_singleton_eq_append_cons.mp heq with ⟨-, rfl, rfl⟩ | ⟨after, rfl, rfl⟩
    · exact .inl hb
    · exact .inr ⟨⟨before, b, after, rfl, hb, fun c hc => hafter c (List.mem_append_left _ hc)⟩,
        hafter a (List.mem_append_right _ (List.mem_singleton_self a))⟩
  · rintro (ha | ⟨⟨before, b, after, rfl, hb, hafter⟩, ha⟩)
    · exact ⟨l, a, [], rfl, ha, fun b hb => absurd hb List.not_mem_nil⟩
    · refine ⟨before, b, after ++ [a], by simp, hb, fun c hc => ?_⟩
      rcases List.mem_append.mp hc with hc | hc
      · exact hafter c hc
      · exact List.mem_singleton.mp hc ▸ ha

theorem Since.append {α : Type} {happens ends : α → Prop} {l l' : List α} (h : Since happens ends l)
    (hl' : ∀ a ∈ l', ¬ ends a) : Since happens ends (l ++ l') := by
  obtain ⟨before, a, after, rfl, ha, hafter⟩ := h
  refine ⟨before, a, after ++ l', by simp, ha, fun b hb => ?_⟩
  exact (List.mem_append.mp hb).elim (hafter b) (hl' b)

end Flowgraph

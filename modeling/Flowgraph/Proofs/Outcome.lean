/-!
# Outcomes

When a computation that can fail has a result.
-/

namespace Flowgraph

namespace Outcome

variable {ε α β σ : Type} {x : Except ε α} {a : α} {b : β}

theorem map_eq_ok {f : α → β} : x.map f = .ok b ↔ ∃ a, x = .ok a ∧ f a = b := by
  cases x <;> simp [Except.map]

theorem exists_map_eq_ok {f : α → β} : (∃ b, x.map f = .ok b) ↔ ∃ a, x = .ok a := by
  cases x <;> simp [Except.map]

theorem bind_eq_ok {f : α → Except ε β} : x.bind f = .ok b ↔ ∃ a, x = .ok a ∧ f a = .ok b := by
  cases x <;> simp [Except.bind]

theorem map_eq_error {f : α → β} {e : ε} : x.map f = .error e ↔ x = .error e := by
  cases x <;> simp [Except.map]

theorem bind_eq_error {f : α → Except ε β} {e : ε} :
    x.bind f = .error e ↔ x = .error e ∨ ∃ a, x = .ok a ∧ f a = .error e := by
  cases x <;> simp [Except.bind]

theorem toOption_eq_some : x.toOption = some a ↔ x = .ok a := by
  cases x <;> simp [Except.toOption]

theorem exists_of_map_toOption {f : α → β} (h : x.toOption.map f = some b) :
    ∃ a, x = .ok a ∧ f a = b := by
  cases x with
  | error e => cases h
  | ok a => exact ⟨a, rfl, Option.some.inj h⟩

/-- Two computations, one after the other, have the results that they evaluate to. -/
theorem exists_of_bind_pair {γ : Type} {f : α → Except ε β} {g : α × β → γ} {c : γ}
    (h : (x.bind fun a => (f a).map fun b => (a, b)).toOption.map g = some c) :
    ∃ a b, x = .ok a ∧ f a = .ok b ∧ g (a, b) = c := by
  obtain ⟨⟨a, b⟩, hboth, hc⟩ := exists_of_map_toOption h
  obtain ⟨a', ha, hsecond⟩ := bind_eq_ok.mp hboth
  obtain ⟨b', hb, hpair⟩ := map_eq_ok.mp hsecond
  cases hpair
  exact ⟨a, b, ha, hb, hc⟩

/-! ## Lists of computations -/

section Lists

variable {f : α → Except ε β} {l : List α}

theorem exists_mapM_eq_ok_iff : (∃ bs, l.mapM f = .ok bs) ↔ ∀ a ∈ l, ∃ b, f a = .ok b := by
  induction l with
  | nil => exact iff_of_true ⟨[], rfl⟩ (by simp)
  | cons a l ih =>
    rw [List.forall_mem_cons, ← ih, List.mapM_cons]
    constructor
    · rintro ⟨_, h⟩
      obtain ⟨b, hb, h⟩ := bind_eq_ok.1 h
      obtain ⟨bs, hbs, -⟩ := bind_eq_ok.1 h
      exact ⟨⟨b, hb⟩, bs, hbs⟩
    · rintro ⟨⟨b, hb⟩, bs, hbs⟩
      exact ⟨b :: bs, by rw [hb, hbs]; rfl⟩

/-- Computations of which none fails have their results together. -/
theorem mapM_eq_ok {g : α → β} (h : ∀ a ∈ l, f a = .ok (g a)) : l.mapM f = .ok (l.map g) := by
  induction l with
  | nil => rfl
  | cons a l ih =>
    rw [List.forall_mem_cons] at h
    rw [List.mapM_cons, h.1, ih h.2]
    rfl

/-- Computations that fail together have one that fails so. -/
theorem exists_of_mapM_eq_error {e : ε} (h : l.mapM f = .error e) : ∃ a ∈ l, f a = .error e := by
  induction l with
  | nil => cases h
  | cons a l ih =>
    rw [List.mapM_cons] at h
    obtain hfirst | ⟨b, -, h⟩ := bind_eq_error.1 h
    · exact ⟨a, List.mem_cons_self, hfirst⟩
    obtain hrest | ⟨bs, -, h⟩ := bind_eq_error.1 h
    · obtain ⟨a', ha', hfails⟩ := ih hrest
      exact ⟨a', List.mem_cons_of_mem a ha', hfails⟩
    · cases h

end Lists

variable {f : σ → α → Except ε σ} {l : List α} {s t : σ}

theorem foldlM_cons_eq_ok :
    (a :: l).foldlM f s = .ok t ↔ ∃ u, f s a = .ok u ∧ l.foldlM f u = .ok t := by
  rw [List.foldlM_cons]
  exact bind_eq_ok

/-- Steps succeed together if each one does from where those before it lead. -/
theorem exists_foldlM_eq_ok_iff : (∃ t, l.foldlM f s = .ok t) ↔
    ∀ before a after, l = before ++ a :: after → ∀ u, before.foldlM f s = .ok u →
      ∃ v, f u a = .ok v := by
  constructor
  · rintro ⟨t, h⟩ before a after rfl u hu
    rw [List.foldlM_append, hu] at h
    obtain ⟨v, hv, -⟩ := foldlM_cons_eq_ok.mp h
    exact ⟨v, hv⟩
  · intro hstep
    induction l generalizing s with
    | nil => exact ⟨s, rfl⟩
    | cons a l ih =>
      obtain ⟨u, hu⟩ := hstep [] a l rfl s rfl
      obtain ⟨t, ht⟩ := ih fun before b after hl v hv =>
        hstep (a :: before) b after (congrArg (a :: ·) hl) v (foldlM_cons_eq_ok.mpr ⟨u, hu, hv⟩)
      exact ⟨t, foldlM_cons_eq_ok.mpr ⟨u, hu, ht⟩⟩

/-- Steps of which none fails do not fail together. -/
theorem exists_foldlM_eq_ok (hstep : ∀ a ∈ l, ∀ s, ∃ t, f s a = .ok t) (s : σ) :
    ∃ t, l.foldlM f s = .ok t :=
  exists_foldlM_eq_ok_iff.mpr fun _ a _ hl u _ => hstep a (hl ▸ List.mem_append_cons_self) u

/-- Steps that succeed together have one for each element, with some before it and the others after. -/
theorem exists_of_mem_of_foldlM (ha : a ∈ l) (h : l.foldlM f s = .ok t) :
    ∃ before after u v, l = before ++ a :: after ∧ before.foldlM f s = .ok u ∧ f u a = .ok v ∧
      after.foldlM f v = .ok t := by
  obtain ⟨before, after, rfl⟩ := List.append_of_mem ha
  rw [List.foldlM_append] at h
  obtain ⟨u, hbefore, hrest⟩ := bind_eq_ok.mp h
  obtain ⟨v, hv, hafter⟩ := foldlM_cons_eq_ok.mp hrest
  exact ⟨before, after, u, v, rfl, hbefore, hv, hafter⟩

/-- Steps that fail together fail at one of the elements. -/
theorem exists_of_foldlM_eq_error {e : ε} (h : l.foldlM f s = .error e) :
    ∃ a ∈ l, ∃ t, f t a = .error e := by
  induction l generalizing s with
  | nil => cases h
  | cons a l ih =>
    rw [List.foldlM_cons] at h
    rcases bind_eq_error.mp h with hfirst | ⟨t, -, hrest⟩
    · exact ⟨a, List.mem_cons_self, s, hfirst⟩
    · obtain ⟨b, hb, hfails⟩ := ih hrest
      exact ⟨b, List.mem_cons_of_mem a hb, hfails⟩

/-- What the step for each element keeps holds after all of them. -/
theorem foldlM_preserves_of_mem {P : σ → Prop} (hstep : ∀ a ∈ l, ∀ s t, f s a = .ok t → P s → P t)
    (hs : P s) (h : l.foldlM f s = .ok t) : P t := by
  induction l generalizing s with
  | nil =>
    cases h
    exact hs
  | cons a l ih =>
    obtain ⟨u, hu, hrest⟩ := foldlM_cons_eq_ok.mp h
    exact ih (fun b hb => hstep b (List.mem_cons_of_mem a hb))
      (hstep a List.mem_cons_self s u hu hs) hrest

/-- What every step keeps holds after all of them. -/
theorem foldlM_preserves {P : σ → Prop} (hstep : ∀ s t a, f s a = .ok t → P s → P t) (hs : P s)
    (h : l.foldlM f s = .ok t) : P t :=
  foldlM_preserves_of_mem (fun a _ s t => hstep s t a) hs h

end Outcome

end Flowgraph

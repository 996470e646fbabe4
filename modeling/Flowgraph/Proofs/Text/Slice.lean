import Flowgraph.Text.Slice
import Mathlib.Data.List.TakeWhile

/-!
# Pieces of a text

Cutting a text at a character takes apart what joining pieces with that character has put together.
-/

namespace Flowgraph

namespace Text

variable {a b c d : Char} {p : Char → Bool} {s t w v glue before after : List Char}
  {pieces : List (List Char)}

/-! ## Trimming -/

theorem dropEndWhile_eq_reverse : dropEndWhile p s = (s.reverse.dropWhile p).reverse := by
  induction s with
  | nil => rfl
  | cons c cs ih =>
    have hstep : dropEndWhile p (c :: cs) =
        if (dropEndWhile p cs).isEmpty && p c then [] else c :: dropEndWhile p cs := rfl
    rw [hstep, ih, List.reverse_cons, List.dropWhile_append, List.isEmpty_reverse]
    generalize cs.reverse.dropWhile p = kept
    cases kept <;> cases hc : p c <;> simp [hc]

theorem length_trim_le : (trim s).length ≤ s.length := by
  rw [trim, trimEnd, trimStart, dropEndWhile_eq_reverse, List.length_reverse]
  calc ((s.dropWhile isBlank).reverse.dropWhile isBlank).length
    _ ≤ (s.dropWhile isBlank).reverse.length := List.length_dropWhile_le ..
    _ = (s.dropWhile isBlank).length := List.length_reverse
    _ ≤ s.length := List.length_dropWhile_le ..

theorem trim_blanks_append (hw : ∀ c ∈ w, isBlank c = true) : trim (w ++ s) = trim s := by
  rw [trim, trim, trimStart, trimStart, List.dropWhile_append, List.dropWhile_eq_nil_iff.2 hw,
    List.isEmpty_nil, if_pos rfl]

theorem trim_eq_nil (hw : ∀ c ∈ w, isBlank c = true) : trim w = [] := by
  have hnil := trim_blanks_append (s := []) hw
  rwa [List.append_nil] at hnil

theorem mem_dropWhile (hc : c ∈ s) (hp : p c = false) : c ∈ s.dropWhile p := by
  rw [← List.takeWhile_append_dropWhile (p := p) (l := s), List.mem_append] at hc
  refine hc.resolve_left fun hmem => ?_
  rw [List.mem_takeWhile_imp hmem] at hp
  cases hp

/-- Nothing but blanks is trimmed off. -/
theorem mem_trim (hc : c ∈ s) (hblank : isBlank c = false) : c ∈ trim s := by
  rw [trim, trimEnd, trimStart, dropEndWhile_eq_reverse, List.mem_reverse]
  exact mem_dropWhile (List.mem_reverse.2 (mem_dropWhile hc hblank)) hblank

theorem trim_eq_nil_iff : trim s = [] ↔ ∀ c ∈ s, isBlank c = true := by
  refine ⟨fun h c hc => ?_, trim_eq_nil⟩
  by_contra hblank
  have hmem := mem_trim hc (Bool.eq_false_iff.2 hblank)
  rw [h] at hmem
  cases hmem

/-- A text that starts and ends with a character that is not blank. -/
def IsTrimmed (s : List Char) : Prop :=
  (∃ c t, s = c :: t ∧ isBlank c = false) ∧ ∃ t c, s = t ++ [c] ∧ isBlank c = false

theorem IsTrimmed.append (hs : IsTrimmed s) (ht : IsTrimmed t) : IsTrimmed (s ++ v ++ t) := by
  obtain ⟨⟨c, cs, hstart, hc⟩, -⟩ := hs
  obtain ⟨-, ds, d, hend, hd⟩ := ht
  exact ⟨⟨c, cs ++ v ++ t, by simp [hstart], hc⟩, s ++ v ++ ds, d, by simp [hend], hd⟩

/-- Blanks around a text are trimmed off, and no more. -/
theorem IsTrimmed.trim_eq (hs : IsTrimmed s) (hw : ∀ c ∈ w, isBlank c = true)
    (hv : ∀ c ∈ v, isBlank c = true) : trim (w ++ s ++ v) = s := by
  obtain ⟨⟨c, t, hstart, hc⟩, u, d, hend, hd⟩ := hs
  have htrimStart : trimStart (s ++ v) = s ++ v := by
    rw [trimStart, hstart, List.cons_append, List.dropWhile_cons_of_neg (by simp [hc])]
  have hblanks : v.reverse.dropWhile isBlank = [] :=
    List.dropWhile_eq_nil_iff.2 fun c hc => hv c (List.mem_reverse.1 hc)
  rw [List.append_assoc, trim_blanks_append hw, trim, htrimStart, trimEnd, dropEndWhile_eq_reverse,
    List.reverse_append, List.dropWhile_append, hblanks, List.isEmpty_nil, if_pos rfl, hend,
    List.reverse_append, List.reverse_singleton, List.singleton_append,
    List.dropWhile_cons_of_neg (by simp [hd]), List.reverse_cons, List.reverse_reverse]

theorem IsTrimmed.trim_eq_self (hs : IsTrimmed s) : trim s = s := by
  have hnone : ∀ c ∈ ([] : List Char), isBlank c = true := by simp
  simpa using hs.trim_eq hnone hnone

/-! ## Searching -/

theorem dropLead?_eq_some : dropLead? w s = some t ↔ s = w ++ t := by
  induction w generalizing s with
  | nil => simp [dropLead?, eq_comm]
  | cons d w ih =>
    cases s with
    | nil => simp [dropLead?]
    | cons c cs =>
      rw [dropLead?, Option.ite_none_right_eq_some, ih, beq_iff_eq, List.cons_append, List.cons.injEq,
        eq_comm (a := d)]

theorem dropTail?_eq_some : dropTail? w s = some t ↔ s = t ++ w := by
  rw [dropTail?, Option.map_eq_some_iff]
  constructor
  · rintro ⟨u, hlead, rfl⟩
    rw [← List.reverse_reverse s, dropLead?_eq_some.1 hlead, List.reverse_append,
      List.reverse_reverse]
  · rintro rfl
    exact ⟨t.reverse, dropLead?_eq_some.2 List.reverse_append, List.reverse_reverse t⟩

theorem splitOnce_self_append (hs : s ≠ []) : splitOnce s (s ++ t) = some ([], t) := by
  cases s with
  | nil => exact absurd rfl hs
  | cons c cs => rw [List.cons_append, splitOnce, ← List.cons_append, dropLead?_eq_some.2 rfl]

theorem eq_append_of_splitOnce (h : splitOnce w s = some (before, after)) :
    s = before ++ (w ++ after) := by
  induction s generalizing before with
  | nil =>
    rw [splitOnce] at h
    split at h
    next hw =>
      cases h
      simp [List.isEmpty_iff.1 hw]
    next => cases h
  | cons c cs ih =>
    rw [splitOnce] at h
    split at h
    next rest hlead =>
      cases h
      rw [List.nil_append]
      exact dropLead?_eq_some.1 hlead
    next =>
      obtain ⟨⟨before, after⟩, hcs, heq⟩ := Option.map_eq_some_iff.1 h
      cases heq
      rw [ih hcs, List.cons_append]

theorem splitOnce_cons_of_eq_none (h : dropLead? w (c :: s) = none) :
    splitOnce w (c :: s) = (splitOnce w s).map fun (before, after) => (c :: before, after) := by
  rw [splitOnce, h]

/-- A text without the first character of what is searched for is passed over. -/
theorem splitOnce_append_of_not_mem (hd : d ∉ s) :
    splitOnce (d :: w) (s ++ t) =
      (splitOnce (d :: w) t).map fun (before, after) => (s ++ before, after) := by
  induction s with
  | nil => simp
  | cons c cs ih =>
    rw [List.mem_cons, not_or] at hd
    have hlead : dropLead? (d :: w) (c :: (cs ++ t)) = none := by simp [dropLead?, hd.1]
    rw [List.cons_append, splitOnce_cons_of_eq_none hlead, ih hd.2, Option.map_map]
    rfl

theorem splitOnce_singleton_eq_none : splitOnce [d] s = none ↔ d ∉ s := by
  induction s with
  | nil => simp [splitOnce]
  | cons c cs ih =>
    rw [splitOnce]
    by_cases hc : c = d
    · simp [dropLead?, hc]
    · simp [dropLead?, Ne.symm hc, ih]

/-- A text is cut at its first occurrence of a character. -/
theorem splitOnce_singleton_eq_some :
    splitOnce [d] s = some (before, after) ↔ s = before ++ d :: after ∧ d ∉ before := by
  induction s generalizing before after with
  | nil => simp [splitOnce]
  | cons c cs ih =>
    rw [splitOnce]
    by_cases hc : c = d
    · -- The character in front leaves nothing before it.
      subst hc
      cases before with
      | nil => simp [dropLead?]
      | cons b before =>
        simp only [dropLead?, beq_self_eq_true, if_true, Option.some.injEq, Prod.mk.injEq,
          List.cons_append, List.cons.injEq, List.mem_cons]
        grind
    · have hlead : dropLead? [d] (c :: cs) = none := by simp [dropLead?, Ne.symm hc]
      simp only [hlead, Option.map_eq_some_iff, Prod.exists, Prod.mk.injEq, ih]
      constructor
      · rintro ⟨before, after, ⟨rfl, hd⟩, rfl, rfl⟩
        exact ⟨rfl, List.not_mem_cons_of_ne_of_not_mem (Ne.symm hc) hd⟩
      · rintro ⟨heq, hd⟩
        cases before with
        | nil => exact absurd (List.cons.inj heq).1 hc
        | cons b before =>
          obtain ⟨rfl, rfl⟩ := List.cons.inj heq
          exact ⟨before, after, ⟨rfl, List.not_mem_of_not_mem_cons hd⟩, rfl, rfl⟩

/-- A text is taken apart at the first occurrence of a character in one way. -/
theorem append_cons_inj (hs : d ∉ s) (ht : d ∉ t)
    (h : s ++ d :: v = t ++ d :: w) : s = t ∧ v = w := by
  have hcut : splitOnce [d] (s ++ d :: v) = some (t, w) := splitOnce_singleton_eq_some.mpr ⟨h, ht⟩
  rw [splitOnce_singleton_eq_some.mpr ⟨rfl, hs⟩] at hcut
  exact Prod.mk.inj (Option.some.inj hcut)

theorem splitOnceLast_eq_none : splitOnceLast d s = none ↔ d ∉ s := by
  induction s with
  | nil => simp [splitOnceLast]
  | cons c cs ih =>
    rw [splitOnceLast, List.mem_cons, not_or, ← ih]
    cases splitOnceLast d cs with
    | none => by_cases hc : c = d <;> simp [hc, Ne.symm]
    | some parts => simp

theorem splitOnceLast_append_cons (hafter : d ∉ after) :
    splitOnceLast d (before ++ d :: after) = some (before, after) := by
  induction before with
  | nil => rw [List.nil_append, splitOnceLast, splitOnceLast_eq_none.2 hafter]; simp
  | cons c before ih => rw [List.cons_append, splitOnceLast, ih]

/-- A text is cut at its last occurrence of a character. -/
theorem splitOnceLast_eq_some :
    splitOnceLast d s = some (before, after) ↔ s = before ++ d :: after ∧ d ∉ after := by
  constructor
  · intro h
    induction s generalizing before with
    | nil => cases h
    | cons c cs ih =>
      rw [splitOnceLast] at h
      cases hcs : splitOnceLast d cs with
      | none =>
        simp only [hcs, Option.ite_none_right_eq_some, beq_iff_eq, Option.some.injEq,
          Prod.mk.injEq] at h
        obtain ⟨rfl, rfl, rfl⟩ := h
        exact ⟨rfl, splitOnceLast_eq_none.1 hcs⟩
      | some parts =>
        simp only [hcs, Option.some.injEq, Prod.mk.injEq] at h
        obtain ⟨rfl, rfl⟩ := h
        obtain ⟨rfl, hafter⟩ := ih hcs
        exact ⟨rfl, hafter⟩
  · rintro ⟨rfl, hafter⟩
    exact splitOnceLast_append_cons hafter

/-! ## Splitting -/

theorem splitWhere_of_forall_not (hs : ∀ c ∈ s, ¬p c) : splitWhere p s = [s] := by
  induction s with
  | nil => rfl
  | cons c cs ih =>
    rw [List.forall_mem_cons] at hs
    rw [splitWhere, if_neg hs.1, ih hs.2]

theorem splitWhere_ne_nil : splitWhere p s ≠ [] := by
  cases s with
  | nil => exact List.cons_ne_nil _ _
  | cons c cs =>
    rw [splitWhere]
    split
    · exact List.cons_ne_nil _ _
    · split <;> exact List.cons_ne_nil _ _

theorem splitWhere_append (hd : p d) :
    splitWhere p (s ++ d :: t) = splitWhere p s ++ splitWhere p t := by
  induction s with
  | nil => simp [splitWhere, hd]
  | cons c cs ih =>
    rw [List.cons_append, splitWhere, splitWhere, ih]
    split
    · rfl
    · obtain ⟨piece, pieces, hcs⟩ := List.exists_cons_of_ne_nil (splitWhere_ne_nil (p := p) (s := cs))
      rw [hcs]
      rfl

/-- The last piece ends with the last character. -/
theorem exists_splitWhere_append_singleton (hc : ¬p c) :
    ∃ pieces last, splitWhere p (s ++ [c]) = pieces ++ [last ++ [c]] := by
  induction s with
  | nil => exact ⟨[], [], by simp [splitWhere, hc]⟩
  | cons a s ih =>
    obtain ⟨pieces, last, heq⟩ := ih
    rw [List.cons_append, splitWhere, heq]
    split
    · exact ⟨[] :: pieces, last, rfl⟩
    · cases pieces with
      | nil => exact ⟨[], a :: last, rfl⟩
      | cons piece pieces => exact ⟨(a :: piece) :: pieces, last, rfl⟩

theorem not_of_mem_splitWhere (hv : v ∈ splitWhere p s) : ∀ c ∈ v, ¬p c := by
  induction s generalizing v with
  | nil =>
    obtain rfl := List.mem_singleton.1 hv
    exact fun _ hc => absurd hc List.not_mem_nil
  | cons c cs ih =>
    rw [splitWhere] at hv
    split at hv
    next =>
      obtain rfl | hv := List.mem_cons.1 hv
      · exact fun _ hc => absurd hc List.not_mem_nil
      · exact ih hv
    next hc =>
      obtain ⟨piece, pieces, hcs⟩ := List.exists_cons_of_ne_nil (splitWhere_ne_nil (p := p) (s := cs))
      rw [hcs] at ih hv
      obtain rfl | hv := List.mem_cons.1 hv
      · exact List.forall_mem_cons.2 ⟨hc, ih List.mem_cons_self⟩
      · exact ih (List.mem_cons_of_mem piece hv)

theorem not_mem_of_mem_splitOn (hv : v ∈ splitOn d s) : d ∉ v :=
  fun hd => not_of_mem_splitWhere hv d hd (beq_self_eq_true d)

/-- Pieces without the character that joins them are got back by cutting at it. -/
theorem splitOn_join (hne : pieces ≠ []) (hpieces : ∀ piece ∈ pieces, d ∉ piece) :
    splitOn d (join [d] pieces) = pieces := by
  have hclear {piece : List Char} (hpiece : d ∉ piece) : ∀ c ∈ piece, ¬(c == d) = true := by
    rintro c hc heq
    exact hpiece (eq_of_beq heq ▸ hc)
  induction pieces with
  | nil => exact absurd rfl hne
  | cons piece rest ih =>
    rw [List.forall_mem_cons] at hpieces
    cases rest with
    | nil => exact splitWhere_of_forall_not (hclear hpieces.1)
    | cons next rest =>
      rw [join, List.append_assoc, List.singleton_append, splitOn,
        splitWhere_append (p := (· == d)) (beq_self_eq_true d), splitWhere_of_forall_not (hclear hpieces.1), ← splitOn,
        ih (List.cons_ne_nil _ _) hpieces.2, List.singleton_append]
      exact List.cons_ne_nil _ _

/-! ## Joining -/

theorem join_cons (hne : pieces ≠ []) : join glue (s :: pieces) = s ++ (glue ++ join glue pieces) := by
  cases pieces with
  | nil => exact absurd rfl hne
  | cons next rest => simp [join]

theorem join_append {more : List (List Char)} (hne : pieces ≠ []) (hmore : more ≠ []) :
    join glue (pieces ++ more) = join glue pieces ++ (glue ++ join glue more) := by
  induction pieces with
  | nil => exact absurd rfl hne
  | cons piece rest ih =>
    cases rest with
    | nil => exact join_cons hmore
    | cons next rest =>
      have hrest : next :: rest ≠ [] := List.cons_ne_nil next rest
      rw [List.cons_append, join_cons (List.append_ne_nil_of_left_ne_nil hrest more), ih hrest,
        join_cons hrest]
      simp only [List.append_assoc]

theorem join_eq_intercalate : join glue pieces = glue.intercalate pieces := by
  induction pieces with
  | nil => simp [join]
  | cons piece rest ih =>
    cases rest with
    | nil => simp [join]
    | cons next rest => rw [join_cons (by simp), ih, List.intercalate_cons_cons]; simp

theorem mem_of_mem_join (hc : c ∈ join glue pieces) : c ∈ glue ∨ ∃ piece ∈ pieces, c ∈ piece := by
  induction pieces with
  | nil => cases hc
  | cons piece rest ih =>
    cases rest with
    | nil => exact .inr ⟨piece, List.mem_singleton_self piece, hc⟩
    | cons next rest =>
      rw [join, List.mem_append, List.mem_append] at hc
      · obtain (hc | hc) | hc := hc
        · exact .inr ⟨piece, List.mem_cons_self, hc⟩
        · exact .inl hc
        · obtain hglue | ⟨other, hother, hc⟩ := ih hc
          · exact .inl hglue
          · exact .inr ⟨other, List.mem_cons_of_mem _ hother, hc⟩
      · exact List.cons_ne_nil _ _

theorem join_append_cons : join glue ((s ++ t) :: pieces) = s ++ join glue (t :: pieces) := by
  cases pieces with
  | nil => rfl
  | cons next rest => simp [join]

/-- Putting the pieces together again undoes the cuts. -/
theorem join_splitOn : join [d] (splitOn d s) = s := by
  induction s with
  | nil => rfl
  | cons c cs ih =>
    rw [splitOn, splitWhere]
    split
    next hc => rw [join_cons splitWhere_ne_nil, ← splitOn, ih, eq_of_beq hc]; rfl
    next =>
      rw [← splitOn]
      obtain ⟨piece, pieces, hcs⟩ := List.exists_cons_of_ne_nil (splitWhere_ne_nil (p := (· == d)) (s := cs))
      rw [splitOn, hcs] at ih ⊢
      exact (join_append_cons (s := [c])).trans (congrArg (c :: ·) ih)

theorem count_join (hpieces : ∀ piece ∈ pieces, d ∉ piece) :
    (join [d] pieces).count d = pieces.length - 1 := by
  induction pieces with
  | nil => rfl
  | cons piece rest ih =>
    rw [List.forall_mem_cons] at hpieces
    have hpiece : piece.count d = 0 := List.count_eq_zero.2 hpieces.1
    cases rest with
    | nil => exact hpiece
    | cons next rest =>
      rw [join_cons (List.cons_ne_nil next rest), List.count_append, List.count_append, hpiece,
        ih hpieces.2, List.count_singleton_self]
      simp only [List.length_cons]
      omega

/-! ## Lines -/

/-- No line holds a line feed. -/
theorem not_mem_of_mem_lines (hv : v ∈ lines s) : '\n' ∉ v := by
  have hgo (pieces : List (List Char)) (hv : v ∈ lines.go pieces) : ∃ piece ∈ pieces, v ⊆ piece := by
    induction pieces using lines.go.induct with
    | case1 => cases hv
    | case2 last hlast => simp [lines.go, hlast] at hv
    | case3 last hlast =>
      simp only [lines.go, hlast, Bool.false_eq_true, if_false] at hv
      exact ⟨last, List.mem_singleton_self last, List.mem_singleton.1 hv ▸ List.Subset.refl _⟩
    | case4 line rest hrest ih =>
      rw [lines.go] at hv
      · obtain rfl | hv := List.mem_cons.1 hv
        · refine ⟨line, List.mem_cons_self, ?_⟩
          cases htail : dropTail? ['\r'] line with
          | none => exact List.Subset.refl _
          | some start => exact dropTail?_eq_some.1 htail ▸ List.subset_append_left start _
        · obtain ⟨piece, hpiece, hsub⟩ := ih hv
          exact ⟨piece, List.mem_cons_of_mem line hpiece, hsub⟩
      · exact hrest
  obtain ⟨piece, hpiece, hsub⟩ := hgo _ hv
  exact fun hmem => not_mem_of_mem_splitOn hpiece (hsub hmem)

/-! ## Replacing -/

/-- A text without the first of the two characters is left alone. -/
theorem replacePair_of_not_mem (ha : a ∉ s) : replacePair a b d s = s := by
  induction s with
  | nil => rfl
  | cons c cs ih =>
    rw [List.mem_cons, not_or] at ha
    cases cs with
    | nil => rfl
    | cons c' cs =>
      have hne : (c == a && c' == b) = false := by simp [Ne.symm ha.1]
      rw [replacePair, hne, ih ha.2]
      rfl

theorem replacePair_cons_of_ne (hc : c ≠ a) :
    replacePair a b d (c :: s) = c :: replacePair a b d s := by
  cases s with
  | nil => rfl
  | cons c' cs => simp [replacePair, hc]

/-- No pair reaches over a character that is neither of the two. -/
theorem replacePair_append_cons (ha : c ≠ a) (hb : c ≠ b) :
    replacePair a b d (s ++ c :: t) = replacePair a b d s ++ c :: replacePair a b d t := by
  induction s using replacePair.induct a b with
  | case1 => exact replacePair_cons_of_ne ha
  | case2 c' =>
    have hpair : (c' == a && c == b) = false := by simp [hb]
    simp only [List.cons_append, List.nil_append, replacePair, hpair, replacePair_cons_of_ne ha,
      Bool.false_eq_true, if_false]
  | case3 c₁ c₂ cs hpair ih => simp only [List.cons_append, replacePair, hpair, if_true, ih]
  | case4 c₁ c₂ cs hpair ih =>
    simp only [List.cons_append, replacePair, hpair, if_false, ← ih, Bool.false_eq_true]

end Text

end Flowgraph

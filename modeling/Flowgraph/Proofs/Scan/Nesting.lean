import Flowgraph.Proofs.Scan.Braces

/-!
# Nesting of blocks between braces

The lines of two definitions are apart or nested, unless the search for the block of one is overtaken by the
end of the block around it. It then takes the next block for the one it looks for.
-/

namespace Flowgraph

namespace Scan

variable {l : Language} {source : String} {lines : List (List Char)} {outer inner d e : Definition}
  {s t v w : List Char} {k n : Nat}

/-! ## Searches that go on -/

/-- The search for a block, taken up in front of `s`, ends on a line below. -/
def GoesOn (s : List Char) : Prop :=
  ∃ line below, Text.splitOn '\n' s = line :: below ∧ 0 < braceBlockEnd line below

theorem goesOn_iff : GoesOn s ↔ 0 < (linesToEnd ⟨0, false⟩ s).getD 0 := by
  obtain ⟨line, below, hsplit⟩ : ∃ line below, Text.splitOn '\n' s = line :: below :=
    List.exists_cons_of_ne_nil Text.splitWhere_ne_nil
  have hmem : ∀ piece ∈ line :: below, '\n' ∉ piece :=
    hsplit ▸ fun piece hpiece => Text.not_mem_of_mem_splitOn hpiece
  rw [List.forall_mem_cons] at hmem
  have hend : braceBlockEnd line below = (linesToEnd ⟨0, false⟩ s).getD 0 := by
    rw [braceBlockEnd_eq hmem.1 hmem.2, ← hsplit, Text.join_splitOn]
  rw [← hend]
  constructor
  · rintro ⟨line', below', hsplit', hpos⟩
    rw [hsplit] at hsplit'
    cases hsplit'
    exact hpos
  · exact fun hpos => ⟨line, below, hsplit, hpos⟩

/-- In a block, the search for another one ends on the last line of the block at the latest, or passes over
what is left of the block. -/
theorem linesToEnd_le_or_passesOver (hs : StaysOpen k s) (hcount : s.count '}' = s.count '{' + k) :
    (linesToEnd ⟨0, false⟩ (s ++ '}' :: v)).getD 0 ≤ s.count '\n' ∨ PassesOver s ('}' :: v) := by
  obtain ⟨u, w, rfl, hhalts⟩ | hpasses | ⟨u, t, rfl, hu, ht⟩ := halts_or_passesOver s ('}' :: v)
  · have hend := hhalts.linesToEnd_eq
    rw [← List.append_assoc] at hend
    left
    rw [hend, List.count_append]
    exact Nat.le_add_right _ _
  · exact .inr hpasses
  · -- The brace that opens in the text closes in it, since the block around it does.
    have hbefore := hs.left.count_le
    have hnone := List.count_eq_zero.2 hu.not_mem_open
    have hafter := ht.count_le
    simp only [List.count_append, List.count_cons_self,
      List.count_cons_of_ne (show '{' ≠ '}' by decide)] at hcount
    omega

/-- In a text inside a block, the search for another one ends on the last line of the block at the latest,
or passes over what is left of the block and goes on behind it. -/
theorem exists_end_around (k : Nat) (s : List Char) :
    ∃ n, linesToEnd ⟨k + 1, true⟩ s = some n ∧
      ((linesToEnd ⟨0, false⟩ s).getD 0 ≤ n ∨
        ∃ t v, s = t ++ '}' :: v ∧ StaysOpen k t ∧ t.count '}' = t.count '{' + k ∧
          PassesOver t ('}' :: v) ∧ GoesOn v) := by
  obtain ⟨t, v, rfl, ht, hcount⟩ | hopen := exists_closing_or_staysOpen k s
  · refine ⟨_, linesToEnd_of_closes ht hcount, ?_⟩
    obtain hle | hpasses := linesToEnd_le_or_passesOver (v := v) ht hcount
    · exact .inl hle
    by_cases hgoes : GoesOn v
    · exact .inr ⟨t, v, rfl, ht, hcount, hpasses, hgoes⟩
    · have hclose : linesToEnd ⟨0, false⟩ ('}' :: v) = linesToEnd ⟨0, false⟩ v := rfl
      rw [goesOn_iff] at hgoes
      rw [linesToEnd_of_passesOver hpasses, hclose]
      left
      cases hv : linesToEnd ⟨0, false⟩ v with
      | none => simp
      | some n =>
        rw [hv, Option.getD_some] at hgoes
        simp
        omega
  · -- The block does not end, so it goes on to the last line.
    have hend := linesToEnd_of_staysOpen (w := []) hopen
    rw [List.append_nil, linesToEnd, if_pos rfl, Option.map_some, Nat.zero_add] at hend
    refine ⟨_, hend, .inl ?_⟩
    cases h : linesToEnd ⟨0, false⟩ s with
    | none => exact Nat.zero_le _
    | some n => exact linesToEnd_le h

/-! ## Overtaken searches -/

/-- The block of `outer` ends before that of `inner` has begun: in the header of `inner`, or at a place up to
which the search for the block of `inner` passes over everything. From there, that search goes on to a line
below. -/
def Overtakes (lines : List (List Char)) (outer inner : Definition) : Prop :=
  outer.first < inner.first ∧ ∃ s w, outer.text lines = s ++ w ∧ Halts s w ∧
    ((∃ v, w = v ++ inner.text lines ∧ '\n' ∉ v ∧ GoesOn (inner.text lines)) ∨
      ∃ u, inner.text lines = u ++ w ∧ PassesOver u w ∧ GoesOn w)

section Nested

variable (hl : l.blockLayout = .braces) (hlines : ∀ line ∈ lines, '\n' ∉ line)
  (houter : outer ∈ definitionsFrom l 0 lines) (hinner : inner ∈ definitionsFrom l 0 lines)

include hl hlines houter hinner

theorem Overtakes.crosses (h : Overtakes lines outer inner) :
    inner.first ≤ outer.last ∧ outer.last < inner.last := by
  obtain ⟨hlt, s, w, houterText, hhalts, hinnerText⟩ := h
  obtain ⟨h, htext, hfirst⟩ := exists_text_eq_append houter hinner hlines hlt
  rw [last_eq_of_braces hl hlines houter, last_eq_of_braces hl hlines hinner, houterText,
    hhalts.linesToEnd_eq, Option.getD_some]
  rw [houterText] at htext
  obtain ⟨v, rfl, hv, hgoes⟩ | ⟨u, hinnerText, hpasses, hgoes⟩ := hinnerText
  · rw [← List.append_assoc, List.append_cancel_right_eq] at htext
    rw [← htext, List.count_append, List.count_eq_zero.2 hv] at hfirst
    rw [goesOn_iff] at hgoes
    omega
  · rw [hinnerText, ← List.append_assoc, List.append_cancel_right_eq] at htext
    rw [goesOn_iff] at hgoes
    rw [hinnerText, linesToEnd_of_passesOver hpasses, htext, List.count_append]
    cases hw : linesToEnd ⟨0, false⟩ w with
    | none => simp [hw] at hgoes
    | some n =>
      rw [hw, Option.getD_some] at hgoes
      simp only [Option.map_some, Option.getD_some]
      omega

theorem overtakes_of_crosses (hlt : outer.first < inner.first) (hle : inner.first ≤ outer.last)
    (hlast : outer.last < inner.last) : Overtakes lines outer inner := by
  refine ⟨hlt, ?_⟩
  obtain ⟨h, htext, hfirst⟩ := exists_text_eq_append houter hinner hlines hlt
  rw [last_eq_of_braces hl hlines houter, htext] at hle hlast
  rw [last_eq_of_braces hl hlines hinner] at hlast
  obtain ⟨u, v, rfl, hhalts⟩ | hpasses | ⟨s, t, rfl, hs, ht⟩ := halts_or_passesOver h (inner.text lines)
  · -- The outer block ends in front of the inner text, so in the inner header.
    have hend := hhalts.linesToEnd_eq
    rw [← List.append_assoc] at hend
    rw [hend, Option.getD_some] at hle hlast
    rw [List.count_append] at hfirst
    have hv : '\n' ∉ v := List.count_eq_zero.1 (by omega)
    have hgoes : GoesOn (inner.text lines) := goesOn_iff.2 (by omega)
    exact ⟨u, _, by rw [htext, List.append_assoc], hhalts, .inl ⟨v, rfl, hv, hgoes⟩⟩
  · -- Neither block has begun, so both searches halt at the same place.
    rw [linesToEnd_of_passesOver hpasses] at hle hlast
    cases hend : linesToEnd ⟨0, false⟩ (inner.text lines) with
    | none => simp [hend] at hle; omega
    | some n => simp [hend] at hlast; omega
  · obtain ⟨k, hk, hinside⟩ := exists_linesToEnd_eq_inside hs ht
    obtain ⟨n, hn, hle' | ⟨x, v, hsplit, hx, hcount, hpasses, hgoes⟩⟩ :=
      exists_end_around k (inner.text lines)
    · rw [hinside, hn] at hlast
      simp only [Option.map_some, Option.getD_some] at hlast
      omega
    · have hbalanced : IsBalanced '{' '}' (t ++ x) := by
        refine isBalanced_iff.2 ⟨?_, ht.append hk hx⟩
        rw [List.count_append, List.count_append]
        omega
      have hstart : PassesOver s ('{' :: (t ++ x ++ '}' :: v)) := by
        rwa [hsplit, ← List.append_assoc] at hs
      have hclose : PassesOver ['}'] v :=
        passesOver_cons.2 ⟨by decide, by decide, by simp, passesOver_nil⟩
      exact ⟨s ++ '{' :: (t ++ x ++ ['}']), v, by simp [htext, hsplit], .block hstart hbalanced,
        .inr ⟨x ++ ['}'], by simp [hsplit], passesOver_append.2 ⟨hpasses, hclose⟩, hgoes⟩⟩

/-- Two searches for blocks cross in one way alone. -/
theorem overtakes_iff :
    Overtakes lines outer inner ↔
      outer.first < inner.first ∧ inner.first ≤ outer.last ∧ outer.last < inner.last :=
  ⟨fun h => ⟨h.1, h.crosses hl hlines houter hinner⟩,
    fun ⟨hlt, hle, hlast⟩ => overtakes_of_crosses hl hlines houter hinner hlt hle hlast⟩

end Nested

/-- The lines of two definitions are apart or nested, unless the end of one overtakes the search for the block
of the other. -/
theorem nests_iff_not_overtakes (hl : l.blockLayout = .braces) (hd : d ∈ definitions l source)
    (he : e ∈ definitions l source) :
    d.Nests e ↔
      ¬Overtakes (cleanLines l source) d e ∧ ¬Overtakes (cleanLines l source) e d := by
  have hlines : ∀ line ∈ cleanLines l source, '\n' ∉ line := fun _ => not_mem_cleanLines
  have hdLast := first_le_last hd
  have heLast := first_le_last he
  rw [overtakes_iff hl hlines hd he, overtakes_iff hl hlines he hd, Definition.Nests]
  omega

theorem nests_iff_not_overtakes_of_inner_block :
    ⟨"a", 0, 4, ") \x7b".toList⟩ ∈
        definitions .kotlin "fun a() \x7b\n  fun b() \x7b\n    c()\n  \x7d\n\x7d\n" ∧
      ⟨"b", 1, 3, ") \x7b".toList⟩ ∈
        definitions .kotlin "fun a() \x7b\n  fun b() \x7b\n    c()\n  \x7d\n\x7d\n" ∧
      (Definition.Nests ⟨"a", 0, 4, ") \x7b".toList⟩ ⟨"b", 1, 3, ") \x7b".toList⟩ ↔
        ¬Overtakes (cleanLines .kotlin "fun a() \x7b\n  fun b() \x7b\n    c()\n  \x7d\n\x7d\n")
            ⟨"a", 0, 4, ") \x7b".toList⟩ ⟨"b", 1, 3, ") \x7b".toList⟩ ∧
          ¬Overtakes (cleanLines .kotlin "fun a() \x7b\n  fun b() \x7b\n    c()\n  \x7d\n\x7d\n")
            ⟨"b", 1, 3, ") \x7b".toList⟩ ⟨"a", 0, 4, ") \x7b".toList⟩) := by
  have ha : ⟨"a", 0, 4, ") \x7b".toList⟩ ∈
      definitions .kotlin "fun a() \x7b\n  fun b() \x7b\n    c()\n  \x7d\n\x7d\n" := by decide +kernel
  have hb : ⟨"b", 1, 3, ") \x7b".toList⟩ ∈
      definitions .kotlin "fun a() \x7b\n  fun b() \x7b\n    c()\n  \x7d\n\x7d\n" := by decide +kernel
  exact ⟨ha, hb, nests_iff_not_overtakes rfl ha hb⟩

/-- A function without a block, the last one in another, takes the block of the next one. -/
theorem exists_lines_crossing :
    ∃ (l : Language) (source : String) (d e : Definition),
      l.blockLayout = .braces ∧ d ∈ definitions l source ∧ e ∈ definitions l source ∧ ¬d.Nests e :=
  ⟨.kotlin, "fun a() \x7b\n    fun b() = 1\n\x7d\nfun c() \x7b\n    d()\n\x7d\n",
    ⟨"a", 0, 2, ") \x7b".toList⟩, ⟨"b", 1, 5, ") = 1".toList⟩, rfl, by decide +kernel, by decide +kernel,
    by decide⟩

end Scan

end Flowgraph

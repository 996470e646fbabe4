import Flowgraph.Proofs.Text.Pattern
import Flowgraph.Proofs.Text.Slice
import Flowgraph.Scan.Basic
import Mathlib.Data.List.Nodup

/-!
# Definitions and their texts

A definition of the header scan comes from the header on its first line, and all that decides where it
ends is the text behind the header and on the lines below.
-/

namespace Flowgraph

namespace Scan

variable {l : Language} {source : String} {lines below : List (List Char)} {line s : List Char}
  {d e : Definition} {h : Header} {c : Char} {k : Nat}

/-! ## Lines -/

/-- Neither strings nor comments are replaced by a line feed. -/
theorem not_mem_cleanLines (hline : line ∈ cleanLines l source) : '\n' ∉ line := by
  obtain ⟨raw, hraw, rfl⟩ := List.mem_map.1 hline
  have hreplaced : '\n' ∉ stringLiteral.replaceAll ['"', '"'] raw := by
    intro hmem
    obtain hmem | hmem := Pattern.mem_of_mem_replaceAll hmem
    · exact absurd hmem (by decide)
    · exact Text.not_mem_of_mem_lines hraw hmem
  rw [stripNoise]
  split
  next before after hsplit =>
    rw [Text.eq_append_of_splitOnce hsplit] at hreplaced
    exact fun hmem => hreplaced (List.mem_append_left _ hmem)
  next => exact hreplaced

/-! ## Headers -/

theorem exists_find?_of_header? (hheader : header? l line = some h) :
    ∃ p ∈ headers l, ∃ m, p.find? line = some m ∧ h.matched = m.before ++ m.matched ∧
      h.after = m.after := by
  obtain ⟨p, hp, hmap⟩ := List.exists_of_findSome?_eq_some hheader
  obtain ⟨m, hm, rfl⟩ := Option.map_eq_some_iff.1 hmap
  exact ⟨p, hp, m, hm, rfl, rfl⟩

/-- A line with a header is the header and the text behind it. -/
theorem eq_append_of_header? (hheader : header? l line = some h) : line = h.matched ++ h.after := by
  obtain ⟨p, -, m, hm, hmatched, hafter⟩ := exists_find?_of_header? hheader
  rw [hmatched, hafter, List.append_assoc]
  exact Pattern.eq_append_of_findAfter? hm

/-! ## Definitions -/

theorem mem_definitionsFrom :
    d ∈ definitionsFrom l k lines ↔
      ∃ j line, lines[j]? = some line ∧ definition? l (k + j) line (lines.drop (j + 1)) = some d := by
  induction lines generalizing k with
  | nil => simp [definitionsFrom]
  | cons line below ih =>
    rw [definitionsFrom, List.mem_append, Option.mem_toList, ih]
    constructor
    · rintro (hd | ⟨j, line', hline, hd⟩)
      · exact ⟨0, line, rfl, hd⟩
      · refine ⟨j + 1, line', hline, ?_⟩
        rwa [Nat.add_assoc, Nat.add_comm 1] at hd
    · rintro ⟨j, line', hline, hd⟩
      cases j with
      | zero =>
        obtain rfl := Option.some.inj hline
        exact .inl hd
      | succ j =>
        refine .inr ⟨j, line', hline, ?_⟩
        rwa [Nat.add_assoc, Nat.add_comm 1]

/-- The header of a definition stands on its first line, and what is below decides where it ends. -/
structure Definition.HasHeader (l : Language) (lines : List (List Char)) (d : Definition) (h : Header) :
    Prop where
  line_eq : lines[d.first]? = some (h.matched ++ h.after)
  header_eq : header? l (h.matched ++ h.after) = some h
  name_eq : d.name = h.name
  after_eq : d.after = h.after
  last_eq : d.last = d.first +
    match l.blockLayout with
    | .braces => braceBlockEnd h.after (lines.drop (d.first + 1))
    | .indentation => indentedBlockEnd (h.matched ++ h.after) (lines.drop (d.first + 1))

theorem exists_hasHeader (hd : d ∈ definitionsFrom l 0 lines) : ∃ h, d.HasHeader l lines h := by
  obtain ⟨j, line, hline, hdef⟩ := mem_definitionsFrom.1 hd
  obtain ⟨h, hheader, rfl⟩ := Option.map_eq_some_iff.1 hdef
  obtain rfl := eq_append_of_header? hheader
  simp only [Nat.zero_add]
  exact ⟨h, hline, hheader, rfl, rfl, rfl⟩

theorem first_le_last (hd : d ∈ definitionsFrom l 0 lines) : d.first ≤ d.last := by
  obtain ⟨h, hh⟩ := exists_hasHeader hd
  rw [hh.last_eq]
  exact Nat.le_add_right _ _

/-- No line has two definitions. -/
theorem nodup_map_first : ((definitionsFrom l k lines).map (·.first)).Nodup := by
  induction lines generalizing k with
  | nil => exact List.nodup_nil
  | cons line below ih =>
    rw [definitionsFrom, List.map_append, List.nodup_append]
    refine ⟨?_, ih, ?_⟩
    · cases definition? l k line below <;> simp
    · intro first hfirst first' hfirst'
      obtain ⟨d, hd, rfl⟩ := List.mem_map.1 hfirst
      obtain ⟨e, he, rfl⟩ := List.mem_map.1 hfirst'
      obtain ⟨h, -, rfl⟩ := Option.map_eq_some_iff.1 (Option.mem_toList.1 hd)
      obtain ⟨j, line', -, hdef⟩ := mem_definitionsFrom.1 he
      obtain ⟨h', -, rfl⟩ := Option.map_eq_some_iff.1 hdef
      simp only
      omega

theorem eq_of_first_eq (hd : d ∈ definitionsFrom l k lines) (he : e ∈ definitionsFrom l k lines)
    (hfirst : d.first = e.first) : d = e :=
  List.inj_on_of_nodup_map nodup_map_first hd he hfirst

/-! ## Texts -/

/-- The text behind the header, with the lines below. -/
def Definition.text (lines : List (List Char)) (d : Definition) : List Char :=
  Text.join ['\n'] (d.after :: lines.drop (d.first + 1))

theorem Definition.HasHeader.not_mem (hh : d.HasHeader l lines h)
    (hlines : ∀ line ∈ lines, '\n' ∉ line) : '\n' ∉ h.matched ∧ '\n' ∉ h.after := by
  have hmem := hlines _ (List.mem_of_getElem? hh.line_eq)
  rwa [List.mem_append, not_or] at hmem

/-- The text of a definition goes on with the header and then the text of any that starts below. -/
theorem exists_text_eq_append (hd : d ∈ definitionsFrom l 0 lines) (he : e ∈ definitionsFrom l 0 lines)
    (hlines : ∀ line ∈ lines, '\n' ∉ line) (hlt : d.first < e.first) :
    ∃ s, d.text lines = s ++ e.text lines ∧ d.first + s.count '\n' = e.first := by
  obtain ⟨hdr, hhd⟩ := exists_hasHeader hd
  obtain ⟨h, hhe⟩ := exists_hasHeader he
  have hdmem := hhd.not_mem hlines
  have hemem := hhe.not_mem hlines
  obtain ⟨hbound, hline⟩ := List.getElem?_eq_some_iff.1 hhe.line_eq
  generalize hmid : (lines.drop (d.first + 1)).take (e.first - (d.first + 1)) = mid
  have hlength : mid.length = e.first - (d.first + 1) := by
    rw [← hmid, List.length_take, List.length_drop]
    omega
  have hdrop : lines.drop (d.first + 1) = mid ++ (h.matched ++ e.after) :: lines.drop (e.first + 1) := by
    have hstep : lines.drop e.first = (h.matched ++ e.after) :: lines.drop (e.first + 1) := by
      rw [List.drop_eq_getElem_cons hbound, hline, hhe.after_eq]
    rw [← List.take_append_drop (e.first - (d.first + 1)) (lines.drop (d.first + 1)), hmid,
      List.drop_drop, ← hstep]
    congr 2
    omega
  refine ⟨Text.join ['\n'] (d.after :: mid) ++ ('\n' :: h.matched), ?_, ?_⟩
  · rw [Definition.text, Definition.text, hdrop, ← List.cons_append,
      Text.join_append (List.cons_ne_nil _ _) (List.cons_ne_nil _ _), Text.join_append_cons]
    simp
  · have hmem : ∀ piece ∈ d.after :: mid, '\n' ∉ piece := by
      intro piece hpiece
      obtain rfl | hpiece := List.mem_cons.1 hpiece
      · exact hhd.after_eq ▸ hdmem.2
      · rw [← hmid] at hpiece
        exact hlines piece (List.mem_of_mem_drop (List.mem_of_mem_take hpiece))
    rw [List.count_append, Text.count_join hmem, List.count_cons_self, List.count_eq_zero.2 hemem.1,
      List.length_cons, hlength]
    omega

/-! ## Ranges -/

/-- The lines of the two definitions are apart, or those of one are among those of the other. -/
def Definition.Nests (d e : Definition) : Prop :=
  d.last < e.first ∨ e.last < d.first ∨ (d.first ≤ e.first ∧ e.last ≤ d.last) ∨
    (e.first ≤ d.first ∧ d.last ≤ e.last)

instance : Decidable (d.Nests e) := inferInstanceAs (Decidable (_ ∨ _ ∨ _ ∨ _))

end Scan

end Flowgraph

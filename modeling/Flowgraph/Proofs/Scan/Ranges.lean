import Flowgraph.Proofs.CallGraph
import Flowgraph.Proofs.Scan.Definitions

/-!
# Ranges

Whatever ends the search for the end of a block, a line of the text has been reached by then, and no
header stands below it.
-/

namespace Flowgraph

namespace Scan

variable {l : Language} {source : String} {lines below : List (List Char)} {line after : List Char}
  {d : Definition} {b : Braces} {balance : Int} {base last k : Nat} {f : FunctionInfo}

/-! ## Ends of blocks -/

theorem braceEndFrom_lt (hlines : 0 < k + lines.length) :
    braceEndFrom k b lines < k + lines.length := by
  induction lines generalizing k b with
  | nil =>
    rw [List.length_nil, Nat.add_zero] at hlines
    rw [braceEndFrom, List.length_nil, Nat.add_zero]
    split
    · exact Nat.sub_lt hlines Nat.one_pos
    · exact hlines
  | cons line below ih =>
    rw [braceEndFrom, List.length_cons]
    split
    · omega
    · split
      · omega
      next b' hread =>
        have hnext : braceEndFrom (k + 1) b' below < k + 1 + below.length := ih (by omega)
        omega

theorem braceBlockEnd_le : braceBlockEnd after below ≤ below.length := by
  have hlt : braceEndFrom 0 ⟨0, false⟩ (after :: below) < 0 + (after :: below).length :=
    braceEndFrom_lt (by simp)
  rw [List.length_cons, Nat.zero_add] at hlt
  exact Nat.le_of_lt_succ hlt

theorem headerEndFrom_lt (hlines : 0 < k + lines.length) :
    headerEndFrom k balance lines < k + lines.length := by
  induction lines generalizing k balance with
  | nil =>
    rw [List.length_nil, Nat.add_zero] at hlines
    exact Nat.sub_lt hlines Nat.one_pos
  | cons line below ih =>
    simp only [headerEndFrom, List.length_cons]
    split
    · omega
    · have hnext : headerEndFrom (k + 1) (balance + bracketBalance line) below < k + 1 + below.length :=
        ih (by omega)
      omega

theorem indentEndFrom_lt (hlast : last < k) : indentEndFrom base last k below < k + below.length := by
  induction below generalizing last k with
  | nil => exact hlast
  | cons line below ih =>
    have hblank : indentEndFrom base last (k + 1) below < k + 1 + below.length :=
      ih (hlast.trans k.lt_succ_self)
    have hdeep : indentEndFrom base k (k + 1) below < k + 1 + below.length := ih k.lt_succ_self
    simp only [indentEndFrom, List.length_cons]
    split_ifs <;> omega

theorem indentedBlockEnd_le : indentedBlockEnd line below ≤ below.length := by
  have hheader : headerEndFrom 0 0 (line :: below) < 0 + (line :: below).length :=
    headerEndFrom_lt (by simp)
  rw [indentedBlockEnd]
  generalize headerEndFrom 0 0 (line :: below) = headerEnd at hheader ⊢
  have hlt : indentEndFrom (indentWidth line) headerEnd (headerEnd + 1) (below.drop headerEnd) <
      headerEnd + 1 + (below.drop headerEnd).length := indentEndFrom_lt headerEnd.lt_succ_self
  rw [List.length_cons] at hheader
  rw [List.length_drop] at hlt
  omega

/-! ## Definitions -/

/-- A definition ends on a line of the text. -/
theorem last_lt_length (hd : d ∈ definitionsFrom l 0 lines) : d.last < lines.length := by
  obtain ⟨h, hh⟩ := exists_hasHeader hd
  obtain ⟨hfirst, -⟩ := List.getElem?_eq_some_iff.1 hh.line_eq
  have hbelow : (lines.drop (d.first + 1)).length = lines.length - (d.first + 1) := List.length_drop
  have hend := hh.last_eq
  cases hl : l.blockLayout with
  | braces =>
    have hle : braceBlockEnd h.after (lines.drop (d.first + 1)) ≤ _ := braceBlockEnd_le
    simp only [hl] at hend
    omega
  | indentation =>
    have hle : indentedBlockEnd (h.matched ++ h.after) (lines.drop (d.first + 1)) ≤ _ :=
      indentedBlockEnd_le
    simp only [hl] at hend
    omega

/-! ## Functions -/

theorem length_cleanLines : (cleanLines l source).length = (Text.lines source.toList).length :=
  List.length_map _

/-- The lines of a function, counted from one, are lines of the text. -/
theorem line_bounds_of_mem (hf : f ∈ (callGraph l source).toList) :
    1 ≤ f.startLine ∧ f.startLine ≤ f.endLine ∧ f.endLine ≤ (Text.lines source.toList).length := by
  obtain ⟨d, hd, rfl⟩ := List.mem_map.1 (CallGraph.mem_of_mem_toList_ofList hf)
  have hlt := last_lt_length hd
  rw [length_cleanLines] at hlt
  exact ⟨Nat.le_add_left 1 _, Nat.succ_le_succ (first_le_last hd), hlt⟩

end Scan

end Flowgraph

import Flowgraph.Proofs.Bounds
import Flowgraph.Proofs.Call.Normalization

/-!
# Normalized calls within bounds

The normal form of a call with every list read by number and every difference checked. No check fails.
-/

namespace Flowgraph

namespace Call.Checked

/-! ## Reading by number -/

/-- Drops what stands between angle brackets, blanks and exclamation marks. -/
def strip : Nat → List Char → Except Bounds.Fault (List Char)
  | _, [] => .ok []
  | depth, c :: cs =>
    if c == '<' then strip (depth + 1) cs
    else if c == '>' && depth != 0 then (Bounds.difference depth 1).bind fun depth => strip depth cs
    else if depth != 0 then strip depth cs
    else if Text.isBlank c || c == '!' then strip depth cs
    else (strip depth cs).map (c :: ·)

/-- The call made through a callee. The first of the trailing identifiers that is no self receiver is told by
its number, as is the one from which on they are recorded. -/
def normalize (raw : String) : Except Bounds.Fault (Option String) := do
  let stripped ← strip 0 raw.toList
  let tail := ((segments stripped).reverse.takeWhile isIdentifier).reverse
  let kept ← Bounds.onwards tail (tail.findIdx fun s => !isSelf s)
  match kept.getLast? with
  | none => return none
  | some f =>
    if isKeyword f then return none
    else
      let recorded ← Bounds.onwards kept (kept.length - 2)
      return some (dotted recorded)

/-! ## Within bounds -/

theorem strip_eq (depth : Nat) (s : List Char) : strip depth s = .ok (Call.strip depth s) := by
  induction s generalizing depth with
  | nil => rfl
  | cons c cs ih =>
    rw [strip, Call.strip]
    split_ifs with hopen hclose
    · exact ih (depth + 1)
    · have hdepth : depth ≠ 0 := by simpa using (Bool.and_eq_true_iff.1 hclose).2
      rw [Bounds.difference_eq_ok.2 (Nat.add_sub_cancel' (Nat.one_le_iff_ne_zero.2 hdepth))]
      exact ih (depth - 1)
    · exact ih depth
    · exact ih depth
    · rw [ih depth]
      rfl

/-- What is recorded of a callee are the identifiers from the last but one on. -/
theorem normalize_eq_dotted_drop (raw : String) :
    Call.normalize raw = (kept raw).getLast?.bind fun f =>
      if isKeyword f then none else some (dotted ((kept raw).drop ((kept raw).length - 2))) := by
  obtain hnil | ⟨before, f, hlast⟩ := List.eq_nil_or_concat (kept raw)
  · rw [normalize_of_nil hnil, hnil]
    rfl
  obtain rfl | ⟨before, m, rfl⟩ := List.eq_nil_or_concat before
  · rw [normalize_of_singleton hlast, hlast]
    rfl
  · simp only [List.concat_eq_append, List.append_assoc, List.singleton_append] at hlast
    rw [normalize_of_pair hlast, hlast]
    simp

theorem normalize_eq (raw : String) : normalize raw = .ok (Call.normalize raw) := by
  have hkept : Bounds.onwards (trailing raw) ((trailing raw).findIdx fun s => !isSelf s) =
      .ok (kept raw) :=
    Bounds.onwards_eq_ok.2 ⟨List.findIdx_le_length, List.dropWhile_eq_drop_findIdx_not.symm⟩
  have hrecorded : Bounds.onwards (kept raw) ((kept raw).length - 2) =
      .ok ((kept raw).drop ((kept raw).length - 2)) := Bounds.onwards_eq_ok.2 ⟨Nat.sub_le _ _, rfl⟩
  rw [trailing] at hkept
  simp only [normalize, strip_eq, normalize_eq_dotted_drop, hkept, hrecorded, bind, Except.bind]
  cases (kept raw).getLast? with
  | none => rfl
  | some f => cases hkey : isKeyword f <;> simp [hkey, pure, Except.pure]

end Call.Checked

end Flowgraph

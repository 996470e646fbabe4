import Flowgraph.Text.CharClass

/-!
# Character classes that have nothing in common
-/

namespace Flowgraph

namespace Text

variable {c : Char}

/-- The blanks that are not among the first 128 characters. -/
private def blankPoints : List Nat :=
  [0x85, 0xA0, 0x1680, 0x2000, 0x2001, 0x2002, 0x2003, 0x2004, 0x2005, 0x2006, 0x2007, 0x2008, 0x2009,
    0x200A, 0x2028, 0x2029, 0x202F, 0x205F, 0x3000]

private theorem inRanges_blankPoints :
    ∀ n ∈ blankPoints, inRanges n alphabeticRanges = false ∧ inRanges n digitRanges = false ∧
      inRanges n numberRanges = false := by
  decide +kernel

private theorem mem_blankPoints (hblank : isBlank c = true) (hc : ¬c.toNat < 128) :
    c.toNat ∈ blankPoints := by
  simp only [isBlank, if_neg hc, Bool.or_eq_true, Bool.and_eq_true, beq_iff_eq,
    decide_eq_true_eq] at hblank
  simp only [blankPoints, List.mem_cons, List.not_mem_nil, or_false]
  omega

/-- No letter and no digit is blank. -/
theorem isBlank_eq_false_of_isAlphanumeric (h : isAlphanumeric c = true) : isBlank c = false := by
  refine Bool.eq_false_iff.2 fun hblank => ?_
  by_cases hc : c.toNat < 128
  · have hbounds : 'a'.toNat = 97 ∧ 'z'.toNat = 122 ∧ 'A'.toNat = 65 ∧ 'Z'.toNat = 90 ∧
        '0'.toNat = 48 ∧ '9'.toNat = 57 := by decide
    simp only [isBlank, if_pos hc, Bool.or_eq_true, Bool.and_eq_true, beq_iff_eq,
      decide_eq_true_eq] at hblank
    simp only [isAlphanumeric, if_pos hc, isAsciiAlphanumeric, isAsciiLetter, isAsciiLower,
      isAsciiUpper, isAsciiDigit, Bool.or_eq_true, Bool.and_eq_true, decide_eq_true_eq] at h
    omega
  · obtain ⟨halpha, hdigit, hnumber⟩ := inRanges_blankPoints _ (mem_blankPoints hblank hc)
    simp [isAlphanumeric, if_neg hc, halpha, hdigit, hnumber] at h

theorem isAlphanumeric_of_isAlphabetic (h : isAlphabetic c = true) : isAlphanumeric c = true := by
  unfold isAlphabetic at h
  unfold isAlphanumeric
  split at h
  case isTrue hc => rw [if_pos hc, isAsciiAlphanumeric, h, Bool.true_or]
  case isFalse hc => rw [if_neg hc, h, Bool.true_or, Bool.true_or]

end Text

end Flowgraph

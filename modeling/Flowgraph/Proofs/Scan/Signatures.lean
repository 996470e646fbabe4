import Flowgraph.Proofs.Scan.Braces

/-!
# Bodies behind signatures

The body of a function ends at the brace that closes it, unless the search for it halts in the signature on
a line above: at the end of a block among the parameters, at a semicolon or at a blank line.
-/

namespace Flowgraph

namespace Scan

variable {l : Language} {source : String} {d : Definition} {signature body rest u v : List Char}

/-- What stands between the opening parenthesis of a parameter list and the body: the parameters, in which
parentheses and braces pair up, the closing parenthesis, and text without braces and semicolons. -/
def IsSignature (s : List Char) : Prop :=
  ∃ parameters result, s = parameters ++ ')' :: result ∧ IsBalanced '(' ')' parameters ∧
    IsBalanced '{' '}' parameters ∧ ∀ c ∈ ['{', '}', ';'], c ∉ result

theorem IsSignature.isBalanced (hs : IsSignature signature) : IsBalanced '{' '}' signature := by
  obtain ⟨parameters, result, rfl, -, ⟨hcount, hparameters⟩, hresult⟩ := hs
  have hopen : '{' ∉ ')' :: result := by simpa using hresult '{' (by decide)
  have hclose : '}' ∉ ')' :: result := by simpa using hresult '}' (by decide)
  have hopens : StaysOpen 0 (parameters ++ ')' :: result) :=
    StaysOpen.append (k := 0) hparameters (by omega) (staysOpen_of_not_mem hclose)
  refine isBalanced_iff.2 ⟨?_, hopens⟩
  rw [List.count_append, List.count_append, hcount, List.count_eq_zero.2 hopen, List.count_eq_zero.2 hclose]

/-- No brace of a balanced text stays open. -/
theorem IsBalanced.not_staysOpen (hs : IsBalanced '{' '}' (u ++ '{' :: v)) (hu : '{' ∉ u) :
    ¬StaysOpen 0 v := by
  obtain ⟨hcount, hinits⟩ := hs
  have hclosed : u.count '}' ≤ u.count '{' := hinits u ((List.mem_inits u _).2 (List.prefix_append u _))
  intro hv
  have hv := hv.count_le
  have hnone := List.count_eq_zero.2 hu
  simp only [List.count_append, List.count_cons_self, List.count_cons_of_ne (show '{' ≠ '}' by decide)]
    at hcount
  omega

/-- The body ends at its own brace, unless the search for it halts in the signature with a line feed in
between. -/
theorem last_eq_iff_not_halts_above (hl : l.blockLayout = .braces) (hd : d ∈ definitions l source)
    (htext : d.text (cleanLines l source) = signature ++ '{' :: (body ++ '}' :: rest))
    (hsignature : IsSignature signature) (hbody : IsBalanced '{' '}' body) :
    d.last = d.first + (signature ++ '{' :: body).count '\n' ↔
      ¬∃ u v, signature = u ++ v ∧ Halts u (v ++ '{' :: (body ++ '}' :: rest)) ∧ '\n' ∈ v ++ body := by
  have hlast := last_eq_of_braces hl (fun _ => not_mem_cleanLines) hd
  rw [htext] at hlast
  have hbehind {u v : List Char} (hsplit : signature = u ++ v) :
      (signature ++ '{' :: body).count '\n' = u.count '\n' + (v ++ body).count '\n' := by
    rw [hsplit]
    simp [List.count_append]
  have hhalted {u v : List Char} (hsplit : signature = u ++ v)
      (hhalts : Halts u (v ++ '{' :: (body ++ '}' :: rest))) : d.last = d.first + u.count '\n' := by
    have hend := hhalts.linesToEnd_eq
    rw [← List.append_assoc, ← hsplit] at hend
    rw [hlast, hend, Option.getD_some]
  constructor
  · rintro heq ⟨u, v, hsplit, hhalts, hmem⟩
    have hpos := List.count_pos_iff.2 hmem
    rw [hhalted hsplit hhalts, hbehind hsplit] at heq
    omega
  · intro hnot
    obtain ⟨u, v, hsplit, hhalts⟩ | hpasses | ⟨u, t, hsplit, hu, ht⟩ :=
      halts_or_passesOver signature ('{' :: (body ++ '}' :: rest))
    · have hzero := List.count_eq_zero.2 fun hmem => hnot ⟨u, v, hsplit, hhalts, hmem⟩
      rw [hhalted hsplit hhalts, hbehind hsplit, hzero, Nat.add_zero]
    · have hend := (Halts.block hpasses hbody).linesToEnd_eq
      have hwhole : signature ++ '{' :: (body ++ ['}']) ++ rest =
          signature ++ '{' :: (body ++ '}' :: rest) := by simp
      rw [hwhole] at hend
      rw [hlast, hend, Option.getD_some]
      simp
    · exact absurd ht ((hsplit ▸ hsignature.isBalanced).not_staysOpen hu.not_mem_open)

theorem last_eq_iff_not_halts_above_of_two_lines :
    ⟨"f", 0, 3, "a int,".toList⟩ ∈
        definitions .go "func f(a int,\n\tb int) int \x7b\n\treturn g(a)\n\x7d\n" ∧
      IsSignature "a int,\n\tb int) int ".toList ∧ IsBalanced '{' '}' "\n\treturn g(a)\n".toList ∧
      (3 = 0 + ("a int,\n\tb int) int ".toList ++ '{' :: "\n\treturn g(a)\n".toList).count '\n' ↔
        ¬∃ u v, "a int,\n\tb int) int ".toList = u ++ v ∧
          Halts u (v ++ '{' :: ("\n\treturn g(a)\n".toList ++ '}' :: [])) ∧
          '\n' ∈ v ++ "\n\treturn g(a)\n".toList) := by
  have hd : ⟨"f", 0, 3, "a int,".toList⟩ ∈
      definitions .go "func f(a int,\n\tb int) int \x7b\n\treturn g(a)\n\x7d\n" := by decide +kernel
  have hsignature : IsSignature "a int,\n\tb int) int ".toList :=
    ⟨"a int,\n\tb int".toList, " int ".toList, by decide, by decide, by decide, by simp⟩
  have hbody : IsBalanced '{' '}' "\n\treturn g(a)\n".toList := by decide
  exact ⟨hd, hsignature, hbody, last_eq_iff_not_halts_above rfl hd (by decide +kernel) hsignature hbody⟩

/-- A type with braces among the parameters is taken for the body. -/
theorem exists_body_behind_end :
    ∃ (l : Language) (source : String) (d : Definition) (signature body rest : List Char),
      l.blockLayout = .braces ∧ d ∈ definitions l source ∧
        (((cleanLines l source)[d.first]?.bind (header? l)).bind (·.matched.getLast?) = some '(') ∧
        d.text (cleanLines l source) = signature ++ '{' :: (body ++ '}' :: rest) ∧
        IsSignature signature ∧ IsBalanced '{' '}' body ∧
        d.last ≠ d.first + (signature ++ '{' :: body).count '\n' := by
  refine ⟨.go, "func f(x interface\x7b\x7d) error \x7b\n\tg(x)\n\treturn nil\n\x7d\n",
    ⟨"f", 0, 0, "x interface\x7b\x7d) error \x7b".toList⟩, "x interface\x7b\x7d) error ".toList,
    "\n\tg(x)\n\treturn nil\n".toList, [], rfl, by decide +kernel, by decide +kernel, by decide +kernel,
    ⟨"x interface\x7b\x7d".toList, " error ".toList, by decide, by decide, by decide, by simp⟩,
    by decide, by decide⟩

end Scan

end Flowgraph

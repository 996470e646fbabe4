import Std.Data.ExtTreeSet

/-!
# Pairs of strings

Pairs of strings, ordered by their first and then by their second part, and sets of them.
-/

namespace Flowgraph

abbrev StringPair := String × String

namespace StringPair

def compare : StringPair → StringPair → Ordering :=
  compareLex (compareOn Prod.fst) (compareOn Prod.snd)

instance : Std.TransCmp compare :=
  inferInstanceAs (Std.TransCmp (compareLex (compareOn Prod.fst) (compareOn Prod.snd)))

instance : Std.LawfulEqCmp compare where
  eq_of_compare {a b} h := by
    simp only [compare, compareLex, compareOn, Ordering.then_eq_eq] at h
    exact Prod.ext (Std.LawfulEqCmp.eq_of_compare h.1) (Std.LawfulEqCmp.eq_of_compare h.2)

end StringPair

/-- A set of pairs, which enumerates them in order. -/
abbrev StringPairs := Std.ExtTreeSet StringPair StringPair.compare

end Flowgraph

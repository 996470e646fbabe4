import Std.Data.ExtTreeMap
import Std.Data.ExtTreeSet

/-!
# Deadlines

One deadline for each key. Times are milliseconds from a common origin, without a last one: a clock that
overflows is left out. Keys that are due come out by deadline, and by name where two share one.
-/

namespace Flowgraph

/-! ## Due keys -/

/-- A key with its deadline. -/
structure Due where
  deadline : Nat
  key : String
deriving DecidableEq, Repr

namespace Due

def compare : Due → Due → Ordering :=
  compareLex (compareOn fun d => d.deadline) (compareOn fun d => d.key)

instance : Std.TransCmp compare := by unfold compare; infer_instance

instance : Std.LawfulEqCmp compare where
  eq_of_compare {a b} h := by
    simp only [compare, compareLex, compareOn, Ordering.then_eq_eq,
      Std.LawfulEqCmp.compare_eq_iff_eq] at h
    obtain ⟨t, k⟩ := a
    simp_all

end Due

/-! ## Deadlines -/

/-- The deadline of each key that has one. -/
structure Deadlines where
  times : Std.ExtTreeMap String Nat

namespace Deadlines

def empty : Deadlines := ⟨∅⟩

instance : Inhabited Deadlines := ⟨empty⟩

def isEmpty (d : Deadlines) : Bool := d.times.isEmpty

def size (d : Deadlines) : Nat := d.times.size

def get? (d : Deadlines) (key : String) : Option Nat := d.times[key]?

def contains (d : Deadlines) (key : String) : Bool := d.times.contains key

/-- Sets the deadline of a key, in place of any earlier one. -/
def schedule (d : Deadlines) (key : String) (deadline : Nat) : Deadlines :=
  ⟨d.times.insert key deadline⟩

def cancel (d : Deadlines) (key : String) : Deadlines := ⟨d.times.erase key⟩

/-- The earliest deadline. -/
def next? (d : Deadlines) : Option Nat := d.times.values.min?

/-- The keys of which the deadline has come. -/
def due (d : Deadlines) (now : Nat) : List String :=
  let expired := d.times.toList.filter fun e => decide (e.2 ≤ now)
  (Std.ExtTreeSet.ofList (expired.map fun e => Due.mk e.2 e.1) Due.compare).toList.map (·.key)

/-- The deadlines that have not come. -/
def later (d : Deadlines) (now : Nat) : Deadlines :=
  ⟨d.times.filter fun _ deadline => decide (now < deadline)⟩

end Deadlines

end Flowgraph

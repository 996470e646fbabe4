/-!
# Bounds

Lists read by number and numbers that are subtracted. A number beyond the end of its list and a difference
below zero are faults, in place of a value that stands in for them.
-/

namespace Flowgraph

namespace Bounds

variable {α : Type} {xs ys : List α} {x : α} {a b k n : Nat}

/-- What ends a computation that reads lists by number. -/
inductive Fault where
  /-- The list has no element of the number, or cannot be cut there. -/
  | outOfRange (k length : Nat)
  /-- More is subtracted than there is. -/
  | underflow (a b : Nat)
deriving DecidableEq, Repr

/-- The element number `k`. -/
def element (xs : List α) (k : Nat) : Except Fault α :=
  match xs[k]? with
  | some x => .ok x
  | none => .error (.outOfRange k xs.length)

/-- The elements before number `n`. -/
def upTo (xs : List α) (n : Nat) : Except Fault (List α) :=
  if n ≤ xs.length then .ok (xs.take n) else .error (.outOfRange n xs.length)

/-- The elements from number `n` on. -/
def onwards (xs : List α) (n : Nat) : Except Fault (List α) :=
  if n ≤ xs.length then .ok (xs.drop n) else .error (.outOfRange n xs.length)

/-- What is left of `a` without `b`. -/
def difference (a b : Nat) : Except Fault Nat :=
  if b ≤ a then .ok (a - b) else .error (.underflow a b)

theorem element_eq_ok : element xs k = .ok x ↔ xs[k]? = some x := by
  rw [element]
  cases xs[k]? <;> simp

theorem upTo_eq_ok : upTo xs n = .ok ys ↔ n ≤ xs.length ∧ xs.take n = ys := by
  rw [upTo]
  split
  next hle => simp [hle]
  next hlt => simp [hlt]

theorem onwards_eq_ok : onwards xs n = .ok ys ↔ n ≤ xs.length ∧ xs.drop n = ys := by
  rw [onwards]
  split
  next hle => simp [hle]
  next hlt => simp [hlt]

theorem difference_eq_ok : difference a b = .ok n ↔ b + n = a := by
  rw [difference]
  split
  · rw [Except.ok.injEq]
    omega
  · simp only [reduceCtorEq, false_iff]
    omega

end Bounds

end Flowgraph

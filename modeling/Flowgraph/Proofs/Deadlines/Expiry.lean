import Flowgraph.Proofs.Deadlines
import Flowgraph.Proofs.History
import Mathlib.Data.List.Induction
import Mathlib.Order.Bounds.Defs

/-!
# Expired deadlines

Which keys are handed out when their deadlines have come, told by all that has been done before. A key
comes out once for the deadline that has been set for it last, in the order of the deadlines.
-/

namespace Flowgraph

namespace Due

theorem compare_eq_lt {s t : Due} : compare s t = .lt ↔
    s.deadline < t.deadline ∨ s.deadline = t.deadline ∧ s.key < t.key := by
  have hkey : Ord.compare s.key t.key = .lt ↔ s.key < t.key := compareOfLessAndEq_eq_lt
  simp only [compare, compareLex, compareOn, Ordering.then_eq_lt, Std.compare_eq_lt,
    Std.LawfulEqCmp.compare_eq_iff_eq, hkey]

end Due

namespace Deadlines

variable {d : Deadlines} {key : String} {now deadline first : Nat} {t : Due}

/-! ## What is due, and what is left -/

/-- The deadlines that have come, each with its key. -/
def expired (d : Deadlines) (now : Nat) : List Due :=
  (Std.ExtTreeSet.ofList ((d.times.toList.filter fun e => decide (e.2 ≤ now)).map fun e =>
    Due.mk e.2 e.1) Due.compare).toList

theorem due_eq_map_expired (d : Deadlines) (now : Nat) : d.due now = (d.expired now).map (·.key) := rfl

theorem mem_expired : t ∈ d.expired now ↔ d.get? t.key = some t.deadline ∧ t.deadline ≤ now := by
  simp only [expired, Std.ExtTreeSet.mem_toList, Std.ExtTreeSet.mem_ofList, List.contains_iff_mem,
    List.mem_map, List.mem_filter, decide_eq_true_eq, Prod.exists,
    Std.ExtTreeMap.mem_toList_iff_getElem?_eq_some, get?]
  constructor
  · rintro ⟨key, deadline, h, rfl⟩
    exact h
  · intro h
    exact ⟨t.key, t.deadline, h, rfl⟩

theorem pairwise_expired : (d.expired now).Pairwise fun s t =>
    s.deadline < t.deadline ∨ s.deadline = t.deadline ∧ s.key < t.key :=
  Std.ExtTreeSet.ordered_toList.imp Due.compare_eq_lt.mp

theorem get?_schedule {other : String} {time : Nat} :
    (d.schedule other time).get? key = if other = key then some time else d.get? key := by
  simp [get?, schedule, Std.ExtTreeMap.getElem?_insert]

theorem get?_cancel {other : String} :
    (d.cancel other).get? key = if other = key then none else d.get? key := by
  simp [get?, cancel, Std.ExtTreeMap.getElem?_erase]

theorem get?_later : (d.later now).get? key = if key ∈ d.due now then none else d.get? key :=
  getElem?_times_later

/-- A deadline that is left has not come. -/
theorem lt_of_get?_later (h : (d.later now).get? key = some deadline) : now < deadline := by
  rw [get?_later, Option.ite_none_left_eq_some] at h
  exact Nat.lt_of_not_le fun hle => h.1 (mem_due.mpr ⟨deadline, h.2, hle⟩)

theorem mem_values : deadline ∈ d.times.values ↔ ∃ key, d.get? key = some deadline := by
  simp [OrderedMap.values_eq_map_toList, Std.ExtTreeMap.mem_toList_iff_getElem?_eq_some, get?]

/-- The next deadline is the least one. -/
theorem next?_eq_some_iff :
    d.next? = some first ↔ IsLeast {deadline | ∃ key, d.get? key = some deadline} first := by
  simp only [next?, List.min?_eq_some_iff, mem_values]
  exact Iff.rfl

/-- What is waited for next has not come. -/
theorem lt_of_next?_later (h : (d.later now).next? = some first) : now < first := by
  obtain ⟨⟨key, hkey⟩, -⟩ := next?_eq_some_iff.mp h
  exact lt_of_get?_later hkey

theorem next?_eq_none_iff : d.next? = none ↔ ∀ key, d.get? key = none := by
  simp only [next?, List.min?_eq_none_iff, List.eq_nil_iff_forall_not_mem, mem_values, not_exists]
  rw [forall_comm]
  exact forall_congr' fun key => Option.eq_none_iff_forall_ne_some.symm

/-! ## Runs -/

/-- What is done to the deadlines of keys. -/
inductive Operation where
  | schedule (key : String) (deadline : Nat)
  | cancel (key : String)
  /-- The keys that are due are handed out. -/
  | pop (now : Nat)

def operate (d : Deadlines) : Operation → Deadlines
  | .schedule key deadline => d.schedule key deadline
  | .cancel key => d.cancel key
  | .pop now => d.later now

/-- The keys that an operation hands out. -/
def popped (d : Deadlines) : Operation → List String
  | .pop now => d.due now
  | .schedule _ _ | .cancel _ => []

/-- An operation with the keys that it has handed out. -/
structure Step where
  operation : Operation
  popped : List String

namespace Step

def Schedules (key : String) (deadline : Nat) (s : Step) : Prop :=
  s.operation = .schedule key deadline

/-- Whether an operation does away with the deadline that a key has had: it sets another one, or drops
it, or hands the key out. -/
def Ends (key : String) (s : Step) : Prop :=
  (∃ deadline, s.Schedules key deadline) ∨ s.operation = .cancel key ∨ key ∈ s.popped

end Step

/-- The deadlines after some operations, with these as steps. -/
structure Record where
  deadlines : Deadlines
  steps : List Step

def Record.operate (r : Record) (operation : Operation) : Record :=
  ⟨r.deadlines.operate operation, r.steps ++ [⟨operation, r.deadlines.popped operation⟩]⟩

/-- One operation after another, where no key has a deadline at first. -/
def Record.run (operations : List Operation) : Record := operations.foldl Record.operate ⟨empty, []⟩

theorem Record.run_append_singleton (operations : List Operation) (operation : Operation) :
    Record.run (operations ++ [operation]) = (Record.run operations).operate operation := by
  simp [Record.run]

theorem Record.map_steps_run (operations : List Operation) :
    (Record.run operations).steps.map (·.operation) = operations := by
  induction operations using List.reverseRecOn with
  | nil => rfl
  | append_singleton operations operation ih =>
    simp [Record.run_append_singleton, Record.operate, ih]

/-- An operation sets the deadline of a key, does away with it, or leaves it as it is. -/
theorem get?_operate {operation : Operation} : (d.operate operation).get? key = some deadline ↔
    Step.Schedules key deadline ⟨operation, d.popped operation⟩ ∨
      d.get? key = some deadline ∧ ¬ Step.Ends key ⟨operation, d.popped operation⟩ := by
  -- Each operation either touches the key or does not; a pop touches the keys that it hands out.
  cases operation with
  | schedule other time =>
    by_cases hkey : other = key <;>
      simp [operate, popped, get?_schedule, Step.Schedules, Step.Ends, hkey]
  | cancel other =>
    by_cases hkey : other = key <;>
      simp [operate, popped, get?_cancel, Step.Schedules, Step.Ends, hkey]
  | pop now =>
    by_cases hdue : key ∈ d.due now <;>
      simp [operate, popped, get?_later, Step.Schedules, Step.Ends, hdue]

/-- The deadline of a key is the one that has been set last, unless the key has been dropped or handed
out since. -/
theorem get?_run (operations : List Operation) :
    (Record.run operations).deadlines.get? key = some deadline ↔
      Since (Step.Schedules key deadline) (Step.Ends key) (Record.run operations).steps := by
  induction operations using List.reverseRecOn with
  | nil => simp [Record.run, empty, get?, not_since_nil]
  | append_singleton operations operation ih =>
    rw [Record.run_append_singleton, Record.operate, since_append_singleton, ← ih]
    exact get?_operate

/-- Every deadline comes once and in its turn. After any operations, the keys are handed out of which the
deadline set last has come, unless they have been dropped or handed out since: by deadline and then by
name, and none twice. All others keep their deadlines, and the next one is the least of these and has
not come. -/
theorem due_of_run (operations : List Operation) (now : Nat) :
    let r := Record.run operations
    let d := r.deadlines
    r.steps.map (·.operation) = operations ∧
    (d.due now).Nodup ∧
    (∃ expired : List Due, d.due now = expired.map (·.key) ∧
      (expired.Pairwise fun s t =>
        s.deadline < t.deadline ∨ s.deadline = t.deadline ∧ s.key < t.key) ∧
      ∀ t, t ∈ expired ↔ t.deadline ≤ now ∧
        Since (Step.Schedules t.key t.deadline) (Step.Ends t.key) r.steps) ∧
    (∀ key, (d.later now).get? key = if key ∈ d.due now then none else d.get? key) ∧
    ((d.later now).next? = none ↔ ∀ key, (d.later now).get? key = none) ∧
    ∀ first, (d.later now).next? = some first ↔
      now < first ∧ IsLeast {deadline | ∃ key, (d.later now).get? key = some deadline} first := by
  intro r d
  refine ⟨Record.map_steps_run operations, nodup_due, ?_, fun _ => get?_later, next?_eq_none_iff, ?_⟩
  · refine ⟨d.expired now, due_eq_map_expired d now, pairwise_expired, fun t => ?_⟩
    rw [mem_expired, and_comm, ← get?_run]
  · intro first
    rw [← next?_eq_some_iff, iff_and_self]
    exact lt_of_next?_later

/-- A deadline that has been set anew does not fire at its first time, and fires once at the second. -/
example : (Record.run [.schedule "a.py" 100, .schedule "b.py" 300, .schedule "a.py" 300, .pop 200,
    .pop 300, .pop 400]).steps.map (·.popped) = [[], [], [], [], ["a.py", "b.py"], []] := by
  decide +kernel

end Deadlines

end Flowgraph

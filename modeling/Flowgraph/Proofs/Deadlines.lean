import Flowgraph.Deadlines
import Flowgraph.Proofs.Ordered

/-!
# Deadlines of keys

Which keys have a deadline after one has been set, dropped or handed out.
-/

namespace Flowgraph

namespace Deadlines

variable {d : Deadlines} {key other : String} {now deadline : Nat}

theorem mem_times_schedule :
    key ∈ (d.schedule other deadline).times ↔ other = key ∨ key ∈ d.times := by
  rw [schedule, Std.ExtTreeMap.mem_insert, Std.LawfulEqCmp.compare_eq_iff_eq]

theorem mem_times_foldl_schedule {keys : List String} :
    key ∈ (keys.foldl (fun d other => d.schedule other deadline) d).times ↔
      key ∈ keys ∨ key ∈ d.times := by
  induction keys generalizing d with
  | nil => simp
  | cons other keys ih =>
    rw [List.foldl_cons, ih, mem_times_schedule, List.mem_cons, eq_comm (a := other)]
    simp only [or_assoc, or_left_comm]

theorem mem_times_cancel : key ∈ (d.cancel other).times ↔ other ≠ key ∧ key ∈ d.times := by
  simp only [cancel, Std.ExtTreeMap.mem_erase, ne_eq, Std.LawfulEqCmp.compare_eq_iff_eq]

theorem mem_due :
    key ∈ d.due now ↔ ∃ deadline, d.times[key]? = some deadline ∧ deadline ≤ now := by
  simp only [due, List.mem_map, Std.ExtTreeSet.mem_toList, Std.ExtTreeSet.mem_ofList,
    List.contains_iff_mem, List.mem_filter, decide_eq_true_eq, Prod.exists,
    Std.ExtTreeMap.mem_toList_iff_getElem?_eq_some]
  constructor
  · rintro ⟨-, ⟨name, deadline, ⟨htime, hdue⟩, rfl⟩, rfl⟩
    exact ⟨deadline, htime, hdue⟩
  · rintro ⟨deadline, htime, hdue⟩
    exact ⟨⟨deadline, key⟩, ⟨key, deadline, ⟨htime, hdue⟩, rfl⟩, rfl⟩

theorem mem_due_cancel : key ∈ (d.cancel other).due now ↔ other ≠ key ∧ key ∈ d.due now := by
  by_cases heq : other = key <;> simp [mem_due, cancel, Std.ExtTreeMap.getElem?_erase, heq]

theorem mem_times_of_mem_due (h : key ∈ d.due now) : key ∈ d.times := by
  obtain ⟨deadline, htime, -⟩ := mem_due.mp h
  exact OrderedMap.mem_of_getElem? htime

theorem mem_times_of_mem_later (h : key ∈ (d.later now).times) : key ∈ d.times := by
  rw [later, Std.ExtTreeMap.mem_filter] at h
  exact h.1

/-! ## One key after another -/

/-- No key is due twice. -/
theorem nodup_due : (d.due now).Nodup := by
  rw [due, List.Nodup, List.pairwise_map]
  refine (OrderedSet.nodup_toList _).imp_of_mem fun ha hb hne hkey => hne ?_
  simp only [Std.ExtTreeSet.mem_toList, Std.ExtTreeSet.mem_ofList, List.contains_iff_mem,
    List.mem_map, List.mem_filter, Std.ExtTreeMap.mem_toList_iff_getElem?_eq_some, Prod.exists] at ha hb
  obtain ⟨name, deadline, ⟨htime, -⟩, rfl⟩ := ha
  obtain ⟨name', deadline', ⟨htime', -⟩, rfl⟩ := hb
  obtain rfl : name = name' := hkey
  rw [Option.some.inj (htime.symm.trans htime')]

theorem getElem?_times_foldl_cancel (keys : List String) :
    (keys.foldl cancel d).times[key]? = if key ∈ keys then none else d.times[key]? := by
  induction keys generalizing d with
  | nil => simp
  | cons other keys ih =>
    rw [List.foldl_cons, ih, cancel, Std.ExtTreeMap.getElem?_erase]
    simp only [Std.LawfulEqCmp.compare_eq_iff_eq, List.mem_cons, eq_comm (a := other)]
    split <;> simp_all

/-- The deadlines that have not come are those that are left once every due key is dropped. -/
theorem later_eq_foldl_cancel (d : Deadlines) (now : Nat) :
    d.later now = (d.due now).foldl cancel d := by
  suffices htimes : (d.later now).times = ((d.due now).foldl cancel d).times from
    congrArg Deadlines.mk htimes
  refine Std.ExtTreeMap.ext_getElem? fun key => ?_
  rw [getElem?_times_foldl_cancel, later, Std.ExtTreeMap.getElem?_filter']
  cases htime : d.times[key]? with
  | none => simp
  | some deadline =>
    simp only [mem_due, htime, Option.some.injEq, exists_eq_left', Option.filter_some,
      decide_eq_true_eq]
    by_cases hdue : deadline ≤ now
    · rw [if_neg (Nat.not_lt.mpr hdue), if_pos hdue]
    · rw [if_pos (Nat.lt_of_not_le hdue), if_neg hdue]

theorem getElem?_times_later :
    (d.later now).times[key]? = if key ∈ d.due now then none else d.times[key]? := by
  rw [later_eq_foldl_cancel, getElem?_times_foldl_cancel]

/-! ## The next deadline -/

/-- The earliest deadline is no later than that of any key. -/
theorem exists_next?_le (h : d.times[key]? = some deadline) :
    ∃ first, d.next? = some first ∧ first ≤ deadline := by
  have hmem : deadline ∈ d.times.values := by
    rw [OrderedMap.values_eq_map_toList]
    exact List.mem_map.mpr ⟨(key, deadline), Std.ExtTreeMap.mem_toList_iff_getElem?_eq_some.mpr h, rfl⟩
  cases hnext : d.times.values.min? with
  | none => exact absurd hmem (List.min?_eq_none_iff.mp hnext ▸ List.not_mem_nil)
  | some first => exact ⟨first, hnext, (List.min?_eq_some_iff.mp hnext).2 deadline hmem⟩

end Deadlines

end Flowgraph

import Flowgraph.Call
import Flowgraph.Proofs.Text.Slice

/-!
# Calls and their parts

A call is split at its first dot, and put together again from the two parts.
-/

namespace Flowgraph

namespace Call

variable {call module function name : String}

/-- A call without a dot names a function alone. -/
theorem split_eq_none_iff : split call = (none, name) ↔ name = call ∧ '.' ∉ call.toList := by
  rw [← Text.splitOnce_singleton_eq_none, split]
  cases Text.splitOnce ['.'] call.toList with
  | none => simp [eq_comm]
  | some parts => simp

/-- The module of a call is what stands before the first dot. -/
theorem split_eq_some_iff :
    split call = (some module, function) ↔
      call = module ++ "." ++ function ∧ '.' ∉ module.toList := by
  have hwhole : call = module ++ "." ++ function ↔
      call.toList = module.toList ++ '.' :: function.toList := by
    rw [← String.toList_inj]
    simp
  rw [hwhole, ← Text.splitOnce_singleton_eq_some, split]
  have hpart (cs : List Char) (part : String) : String.ofList cs = part ↔ cs = part.toList := by
    rw [← String.toList_inj, String.toList_ofList]
  cases Text.splitOnce ['.'] call.toList with
  | none => simp
  | some parts => simp [Prod.ext_iff, hpart]

end Call

end Flowgraph

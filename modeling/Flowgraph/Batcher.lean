import Flowgraph.Analysis

/-!
# Batches of pending nodes

Pending nodes are gathered into one classification request. The first nodes open a window, and those
that come before it closes join the batch without moving its deadline.
-/

namespace Flowgraph

structure Batcher where
  /-- How long a batch stays open, in milliseconds. -/
  window : Nat
  deadline : Option Nat
  pending : PendingBatch

namespace Batcher

def empty (window : Nat) : Batcher := ⟨window, none, ∅⟩

def isEmpty (b : Batcher) : Bool := b.pending.isEmpty

/-- The number of nodes in the batch. -/
def size (b : Batcher) : Nat := b.pending.values.foldr (fun ids n => ids.size + n) 0

/-- Puts nodes of a file into the batch. -/
def enqueue (b : Batcher) (path : String) (ids : List String) (now : Nat) : Batcher :=
  if ids.isEmpty then b
  else
    { b with
      pending := b.pending.insert path ((b.pending.getD path ∅).insertMany ids)
      deadline := some (b.deadline.getD (now + b.window)) }

/-- Drops the nodes of a file. A batch left empty is closed. -/
def forget (b : Batcher) (path : String) : Batcher :=
  let pending := b.pending.erase path
  { b with pending, deadline := if pending.isEmpty then none else b.deadline }

def isDue (b : Batcher) (now : Nat) : Bool := b.deadline.any fun deadline => decide (deadline ≤ now)

/-- The batch handed out at a time, if its deadline has come. -/
def due? (b : Batcher) (now : Nat) : Option PendingBatch :=
  if b.isDue now then some b.pending else none

/-- What is left once the due batch is handed out. -/
def later (b : Batcher) (now : Nat) : Batcher := if b.isDue now then empty b.window else b

end Batcher

end Flowgraph

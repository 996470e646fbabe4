import Flowgraph.Syntax.Tree

/-!
# Addresses

The nodes of a syntax tree, told by the way that leads to them from the root, and the two orders in which
a walk meets them: a node starts before those below it and ends after them.
-/

namespace Flowgraph

namespace SyntaxTree

/-- The way from the root to a node: the child to take at each step. -/
abbrev Address := List Nat

variable {t : SyntaxTree} {p q : Address} {i j : Nat}

/-- The node at an address. -/
def at? (t : SyntaxTree) : Address → Option SyntaxTree
  | [] => some t
  | i :: p => t.children[i]?.bind fun child => child.at? p

theorem at?_append (t : SyntaxTree) (p q : Address) : t.at? (p ++ q) = (t.at? p).bind (·.at? q) := by
  induction p generalizing t with
  | nil => rfl
  | cons i p ih =>
    rw [List.cons_append, at?, at?]
    cases t.children[i]? with
    | none => rfl
    | some child => exact ih child

/-! ## Orders -/

/-- Whether a walk leaves the node at `p` before that at `q`, which is above it or starts later. The order
of the starts is the lexicographic one, in which an address comes before those that it leads to. -/
def EndsBefore (p q : Address) : Prop := (q <+: p ∧ q ≠ p) ∨ (p < q ∧ ¬ p <+: q)

/-- Of two nodes below different children, the one below the earlier child comes first, and below the
same child the child decides. -/
def IsWalkOrder (R : Address → Address → Prop) : Prop :=
  ∀ i p j q, R (i :: p) (j :: q) ↔ i < j ∨ i = j ∧ R p q

theorem isWalkOrder_lt : IsWalkOrder (· < ·) := fun _ _ _ _ => List.cons_lt_cons_iff

theorem isWalkOrder_endsBefore : IsWalkOrder EndsBefore := by
  intro i p j q
  simp only [EndsBefore, List.cons_prefix_cons, List.cons_lt_cons_iff, ne_eq, List.cons.injEq]
  by_cases hsame : i = j
  · subst hsame
    simp
  · simp [hsame, Ne.symm hsame]

theorem endsBefore_root (i : Nat) (p : Address) : EndsBefore (i :: p) [] :=
  .inl ⟨List.nil_prefix, by simp⟩

/-! ## Listing -/

variable {α : Type} {R : Address → Address → Prop} {holds holds' : Address → α → Prop} {a : α}
  {inTree : SyntaxTree → Address → α → Prop} {ts : List SyntaxTree} {l l' : List α}

/-- The list of all that holds anywhere, by the order of the addresses where it holds. -/
def Lists (R : Address → Address → Prop) (holds : Address → α → Prop) (l : List α) : Prop :=
  ∃ table : List (Address × α), table.Pairwise (fun x y => R x.1 y.1) ∧
    (∀ p a, (p, a) ∈ table ↔ holds p a) ∧ table.map (·.2) = l

/-- What holds at an address below the roots of some trees, of which its first step chooses one. -/
def Below (inTree : SyntaxTree → Address → α → Prop) (ts : List SyntaxTree) : Address → α → Prop
  | [], _ => False
  | i :: p, a => ∃ t, ts[i]? = some t ∧ inTree t p a

/-- An address below some roots is none of these. -/
theorem Below.exists_cons (h : Below inTree ts p a) : ∃ i q, p = i :: q := by
  cases p with
  | nil => exact h.elim
  | cons i q => exact ⟨i, q, rfl⟩

namespace Lists

theorem congr (h : Lists R holds l) (hsame : ∀ p a, holds p a ↔ holds' p a) : Lists R holds' l := by
  obtain ⟨table, hsorted, hmem, hvalues⟩ := h
  exact ⟨table, hsorted, fun p a => (hmem p a).trans (hsame p a), hvalues⟩

theorem nil (hnone : ∀ p a, ¬ holds p a) : Lists R holds [] :=
  ⟨[], .nil, fun p a => iff_of_false List.not_mem_nil (hnone p a), rfl⟩

/-- The root comes first. -/
theorem cons_root (hR : ∀ i p, R [] (i :: p)) (h : Lists R (Below inTree ts) l) :
    Lists R (fun p b => p = [] ∧ b = a ∨ Below inTree ts p b) (a :: l) := by
  obtain ⟨table, hsorted, hmem, rfl⟩ := h
  refine ⟨([], a) :: table, List.pairwise_cons.mpr ⟨?_, hsorted⟩, fun p b => ?_, rfl⟩
  · rintro ⟨p, b⟩ hentry
    obtain ⟨i, q, rfl⟩ := ((hmem p b).mp hentry).exists_cons
    exact hR i q
  · rw [List.mem_cons, hmem, Prod.mk.injEq]

/-- The root comes last. -/
theorem append_root (hR : ∀ i p, R (i :: p) []) (h : Lists R (Below inTree ts) l) :
    Lists R (fun p b => p = [] ∧ b = a ∨ Below inTree ts p b) (l ++ [a]) := by
  obtain ⟨table, hsorted, hmem, rfl⟩ := h
  refine ⟨table ++ [([], a)], ?_, fun p b => ?_, by simp⟩
  · refine List.pairwise_append.mpr ⟨hsorted, List.pairwise_singleton _ _, ?_⟩
    rintro ⟨p, b⟩ hentry root hroot
    rw [List.mem_singleton.mp hroot]
    obtain ⟨i, q, rfl⟩ := ((hmem p b).mp hentry).exists_cons
    exact hR i q
  · rw [List.mem_append, List.mem_singleton, hmem, Prod.mk.injEq, or_comm]

theorem below_nil : Lists R (Below inTree []) [] := by
  refine nil fun p a hbelow => ?_
  obtain ⟨i, q, rfl⟩ := hbelow.exists_cons
  obtain ⟨t, hfound, -⟩ := hbelow
  cases hfound

/-- What holds in the first tree comes before what holds in the others, which move on by one. -/
theorem below_cons (hR : IsWalkOrder R) (h : Lists R (inTree t) l)
    (hrest : Lists R (Below inTree ts) l') :
    Lists R (Below inTree (t :: ts)) (l ++ l') := by
  obtain ⟨first, hfirst, hmemFirst, rfl⟩ := h
  obtain ⟨rest, hsorted, hmemRest, rfl⟩ := hrest
  have hstep : ∀ x ∈ rest, ∃ i p, x.1 = i :: p := fun x hx =>
    ((hmemRest x.1 x.2).mp hx).exists_cons
  -- The addresses in the first tree go one level down, and those in the others one tree along.
  let down (x : Address × α) : Address × α := (0 :: x.1, x.2)
  let along (x : Address × α) : Address × α := (x.1.modifyHead (· + 1), x.2)
  have hvalues : (first.map down ++ rest.map along).map (·.2) = first.map (·.2) ++ rest.map (·.2) := by
    rw [List.map_append, List.map_map, List.map_map]
    rfl
  refine ⟨first.map down ++ rest.map along, List.pairwise_append.mpr ⟨?_, ?_, ?_⟩, fun p b => ?_,
    hvalues⟩
  · rw [List.pairwise_map]
    exact hfirst.imp fun hlt => (hR _ _ _ _).mpr (.inr ⟨rfl, hlt⟩)
  · rw [List.pairwise_map]
    refine hsorted.imp_of_mem fun {x y} hx hy hlt => ?_
    obtain ⟨i, p, hp⟩ := hstep x hx
    obtain ⟨j, q, hq⟩ := hstep y hy
    rw [hp, hq, hR] at hlt
    simp only [along, hp, hq, List.modifyHead_cons]
    exact (hR _ _ _ _).mpr (hlt.imp Nat.succ_lt_succ fun hsame => ⟨congrArg _ hsame.1, hsame.2⟩)
  · rw [List.forall_mem_map]
    intro x _
    rw [List.forall_mem_map]
    intro y hy
    obtain ⟨j, q, hq⟩ := hstep y hy
    simp only [down, along, hq, List.modifyHead_cons]
    exact (hR _ _ _ _).mpr (.inl (Nat.succ_pos j))
  · simp only [List.mem_append, List.mem_map, Prod.exists, down, along, Prod.mk.injEq, hmemFirst,
      hmemRest]
    constructor
    · rintro (⟨q, b, hheld, rfl, rfl⟩ | ⟨q, b, hbelow, rfl, rfl⟩)
      · exact ⟨t, rfl, hheld⟩
      · obtain ⟨i, q, rfl⟩ := hbelow.exists_cons
        exact hbelow
    · intro hbelow
      match p, hbelow with
      | 0 :: p, ⟨_, rfl, hheld⟩ => exact .inl ⟨p, b, hheld, rfl, rfl⟩
      | (i + 1) :: p, hbelow => exact .inr ⟨i :: p, b, hbelow, rfl, rfl⟩

/-- What is listed from a node is listed from the root, by addresses that lead on from that of the node. -/
theorem append_left (h : Lists (· < ·) holds l)
    (hsame : ∀ q a, holds' q a ↔ ∃ r, q = p ++ r ∧ holds r a) : Lists (· < ·) holds' l := by
  obtain ⟨table, hsorted, hmem, rfl⟩ := h
  refine ⟨table.map fun x => (p ++ x.1, x.2), ?_, fun q b => ?_, by simp⟩
  · rw [List.pairwise_map]
    exact hsorted.imp List.append_left_lt
  · simp only [List.mem_map, Prod.exists, Prod.mk.injEq, hmem, hsame]
    constructor
    · rintro ⟨r, b, hheld, rfl, rfl⟩
      exact ⟨r, rfl, hheld⟩
    · rintro ⟨r, rfl, hheld⟩
      exact ⟨r, b, hheld, rfl, rfl⟩

end Lists

end SyntaxTree

end Flowgraph

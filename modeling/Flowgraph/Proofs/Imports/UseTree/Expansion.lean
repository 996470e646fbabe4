import Flowgraph.Imports.UseTree
import Flowgraph.Proofs.Outcome
import Flowgraph.Proofs.Text.Slice

/-!
# The expansion of use trees

An item of a use tree is a group, has no group, or has its braces out of order, and the last alone stops
the expansion. The items of a group are shorter than the group, so that the expansion never meets the
bound on its depth.
-/

namespace Flowgraph.Imports.UseTree

variable {base : List String} {tree item sub s before inside : List Char} {items : List (List Char)}
  {f g : List Char → Except ImportError (List Leaf)} {e : ImportError} {fuel n : Nat}
  {c : Char}

/-! ## Items -/

/-- `inside` stands between the first opening brace, which `before` leads to, and the last closing one. -/
def IsGroup (item before inside : List Char) : Prop :=
  ∃ after, item = before ++ '{' :: (inside ++ '}' :: after) ∧ '{' ∉ before ∧ '}' ∉ after

/-- There are braces of both kinds, and the last closing one stands in front of the first opening one. -/
def IsDisordered (item : List Char) : Prop :=
  ∃ before after, item = before ++ '{' :: after ∧ '{' ∉ before ∧ '}' ∈ before ∧ '}' ∉ after

theorem item_cases (item : List Char) :
    ('{' ∉ item ∨ '}' ∉ item) ∨ (∃ before inside, IsGroup item before inside) ∨ IsDisordered item := by
  by_cases hopen : '{' ∈ item
  case neg => exact .inl (.inl hopen)
  by_cases hclose : '}' ∈ item
  case neg => exact .inl (.inr hclose)
  obtain ⟨⟨before, rest⟩, hfirst⟩ :=
    Option.ne_none_iff_exists'.1 (mt Text.splitOnce_singleton_eq_none.1 (not_not.2 hopen))
  obtain ⟨rfl, hbefore⟩ := Text.splitOnce_singleton_eq_some.1 hfirst
  by_cases hrest : '}' ∈ rest
  · obtain ⟨⟨inside, after⟩, hlast⟩ :=
      Option.ne_none_iff_exists'.1 (mt Text.splitOnceLast_eq_none.1 (not_not.2 hrest))
    obtain ⟨rfl, hafter⟩ := Text.splitOnceLast_eq_some.1 hlast
    exact .inr (.inl ⟨before, inside, after, rfl, hbefore, hafter⟩)
  · have hfront : '}' ∈ before := by simpa [hrest] using hclose
    exact .inr (.inr ⟨before, rest, rfl, hbefore, hfront, hrest⟩)

/-! ## One step of the expansion -/

theorem expandFrom_of_plain (h : '{' ∉ Text.trim item ∨ '}' ∉ Text.trim item) :
    expandFrom (fuel + 1) base item = .ok (leaf? base (Text.trim item)).toList := by
  rw [expandFrom]
  obtain h | h := h
  · simp [Text.splitOnce_singleton_eq_none.2 h]
  · simp [Text.splitOnceLast_eq_none.2 h]

theorem expandFrom_of_group (h : IsGroup (Text.trim item) before inside) :
    expandFrom (fuel + 1) base item =
      collect (expandFrom fuel (base ++ segments before)) (groupItems inside) := by
  obtain ⟨after, hitem, hbefore, hafter⟩ := h
  have hfirst := Text.splitOnce_singleton_eq_some.2 ⟨hitem, hbefore⟩
  have hlast : Text.splitOnceLast '}' (Text.trim item) = some (before ++ '{' :: inside, after) :=
    Text.splitOnceLast_eq_some.2 ⟨by simp [hitem], hafter⟩
  have hrest : Text.splitOnceLast '}' (inside ++ '}' :: after) = some (inside, after) :=
    Text.splitOnceLast_append_cons hafter
  simp [expandFrom, hfirst, hlast, hrest]

theorem expandFrom_of_disordered (h : IsDisordered (Text.trim item)) :
    expandFrom (fuel + 1) base item =
      .error (.bracesOutOfOrder (String.ofList (Text.trim item))) := by
  obtain ⟨before, after, hitem, hbefore, hclose, hafter⟩ := h
  have hfirst := Text.splitOnce_singleton_eq_some.2 ⟨hitem, hbefore⟩
  have hrest := Text.splitOnceLast_eq_none.2 hafter
  have hwhole : '}' ∈ Text.trim item := hitem ▸ List.mem_append_left _ hclose
  obtain ⟨parts, hlast⟩ := Option.ne_none_iff_exists'.1
    (mt Text.splitOnceLast_eq_none.1 (not_not.2 hwhole))
  simp [expandFrom, hfirst, hlast, hrest]

theorem collect_eq_mapM : collect f items = (items.mapM f).map List.flatten := by
  induction items with
  | nil => rfl
  | cons item items ih =>
    rw [collect, ih, List.mapM_cons]
    cases f item with
    | error e => rfl
    | ok leaves => cases items.mapM f <;> rfl

theorem collect_congr (h : ∀ item ∈ items, f item = g item) : collect f items = collect g items := by
  induction items with
  | nil => rfl
  | cons item items ih =>
    rw [List.forall_mem_cons] at h
    rw [collect, collect, h.1, ih h.2]

/-! ## The depth of the expansion -/

/-- The pieces, with `s` in front of the first. -/
def prepend (s : List Char) : List (List Char) → List (List Char)
  | [] => [s]
  | piece :: pieces => (s ++ piece) :: pieces

/-- The number of braces open behind `c`, where `n` are open in front of it. -/
def afterBrace (n : Nat) (c : Char) : Nat := if c == '{' then n + 1 else if c == '}' then n - 1 else n

theorem splitCommas_cons :
    splitCommas n (c :: s) =
      if c = ',' ∧ n = 0 then [] :: splitCommas 0 s else prepend [c] (splitCommas (afterBrace n c) s) := by
  rw [splitCommas]
  by_cases h : c = ',' ∧ n = 0
  · simp [h]
  · rw [if_neg h, if_neg (by simpa using h)]
    rfl

theorem length_le_of_mem_splitCommas (h : item ∈ splitCommas n s) : item.length ≤ s.length := by
  induction s generalizing n item with
  | nil => simp_all [splitCommas]
  | cons c cs ih =>
    rw [splitCommas_cons] at h
    split at h
    · obtain rfl | h := List.mem_cons.1 h
      · exact Nat.zero_le _
      · exact (ih h).trans (Nat.le_succ _)
    · cases hpieces : splitCommas (afterBrace n c) cs with
      | nil => simp_all [prepend]
      | cons piece pieces =>
        rw [hpieces, prepend, List.mem_cons] at h
        obtain rfl | h := h
        · have hpiece : piece.length ≤ cs.length := ih (n := afterBrace n c) (by simp [hpieces])
          simpa using hpiece
        · exact (ih (hpieces ▸ List.mem_cons_of_mem _ h)).trans (Nat.le_succ _)

/-- The items of a group are shorter than the group. -/
theorem IsGroup.length_lt (h : IsGroup (Text.trim item) before inside) (hsub : sub ∈ groupItems inside) :
    sub.length < item.length := by
  obtain ⟨after, hitem, -, -⟩ := h
  have hinside : sub.length ≤ inside.length :=
    length_le_of_mem_splitCommas (List.mem_filter.1 hsub).1
  have htrim := Text.length_trim_le (s := item)
  have hlength := congrArg List.length hitem
  simp only [List.length_append, List.length_cons] at hlength
  omega

/-- More depth than an item is long changes nothing. -/
theorem expandFrom_congr {m : Nat} (hn : item.length < n) (hm : item.length < m) :
    expandFrom n base item = expandFrom m base item := by
  induction n generalizing m base item with
  | zero => exact absurd hn (Nat.not_lt_zero _)
  | succ n ih =>
    obtain ⟨m, rfl⟩ := Nat.exists_eq_succ_of_ne_zero (Nat.ne_zero_of_lt hm)
    obtain hplain | ⟨before, inside, hgroup⟩ | hdisordered := item_cases (Text.trim item)
    · rw [expandFrom_of_plain hplain, expandFrom_of_plain hplain]
    · rw [expandFrom_of_group hgroup, expandFrom_of_group hgroup]
      refine collect_congr fun sub hsub => ih ?_ ?_
      · have := hgroup.length_lt hsub
        omega
      · have := hgroup.length_lt hsub
        omega
    · rw [expandFrom_of_disordered hdisordered, expandFrom_of_disordered hdisordered]

/-- The leaves of an item below the path `base`, with groups nested to any depth. -/
def expandBelow (base : List String) (item : List Char) : Except ImportError (List Leaf) :=
  expandFrom (item.length + 1) base item

theorem expandBelow_of_plain (h : '{' ∉ Text.trim item ∨ '}' ∉ Text.trim item) :
    expandBelow base item = .ok (leaf? base (Text.trim item)).toList := expandFrom_of_plain h

theorem expandBelow_of_group (h : IsGroup (Text.trim item) before inside) :
    expandBelow base item = collect (expandBelow (base ++ segments before)) (groupItems inside) := by
  rw [expandBelow, expandFrom_of_group h]
  exact collect_congr fun sub hsub => expandFrom_congr (h.length_lt hsub) (Nat.lt_succ_self _)

theorem expandBelow_of_disordered (h : IsDisordered (Text.trim item)) :
    expandBelow base item = .error (.bracesOutOfOrder (String.ofList (Text.trim item))) :=
  expandFrom_of_disordered h

/-! ## Failures -/

/-- `sub` is the item itself, or stands in a group of it, at any depth. -/
inductive Holds : List Char → List Char → Prop
  | self (item : List Char) : Holds item item
  | item {item before inside mid sub : List Char} : IsGroup (Text.trim item) before inside →
      mid ∈ groupItems inside → Holds mid sub → Holds item sub

/-- An expansion fails because of an item with its braces out of order. -/
theorem exists_holds_of_expandBelow (base : List String) (h : expandBelow base item = .error e) :
    ∃ sub, Holds item sub ∧ IsDisordered (Text.trim sub) ∧
      e = .bracesOutOfOrder (String.ofList (Text.trim sub)) := by
  -- The induction is on the length of the item, which is what the nesting of groups takes away.
  induction hn : item.length using Nat.strongRecOn generalizing item base with
  | ind n ih =>
    obtain hplain | ⟨before, inside, hgroup⟩ | hdisordered := item_cases (Text.trim item)
    · rw [expandBelow_of_plain hplain] at h
      cases h
    · rw [expandBelow_of_group hgroup, collect_eq_mapM, Outcome.map_eq_error] at h
      obtain ⟨mid, hmid, hfails⟩ := Outcome.exists_of_mapM_eq_error h
      obtain ⟨sub, hsub, hdisordered, he⟩ := ih _ (hn ▸ hgroup.length_lt hmid) _ hfails rfl
      exact ⟨sub, .item hgroup hmid hsub, hdisordered, he⟩
    · rw [expandBelow_of_disordered hdisordered] at h
      cases h
      exact ⟨item, .self item, hdisordered, rfl⟩

theorem exists_expandBelow_eq_error (base : List String) (hsub : Holds item sub)
    (hdisordered : IsDisordered (Text.trim sub)) :
    ∃ e, expandBelow base item = .error e := by
  induction hsub generalizing base with
  | self item => exact ⟨_, expandBelow_of_disordered hdisordered⟩
  | @item item before inside mid sub hgroup hmid hsub ih =>
    obtain ⟨e, he⟩ := ih (base ++ segments before) hdisordered
    rw [expandBelow_of_group hgroup, collect_eq_mapM]
    cases hall : (groupItems inside).mapM (expandBelow (base ++ segments before)) with
    | error e => exact ⟨e, rfl⟩
    | ok leaves =>
      obtain ⟨_, hok⟩ := Outcome.exists_mapM_eq_ok_iff.1 ⟨_, hall⟩ mid hmid
      rw [he] at hok
      cases hok

/-- A use tree can be expanded unless an item of it has its braces out of order. -/
theorem exists_expand_eq_ok_iff :
    (∃ leaves, expand tree = .ok leaves) ↔ ∀ sub, Holds tree sub → ¬IsDisordered (Text.trim sub) := by
  constructor
  · rintro ⟨leaves, hleaves⟩ sub hsub hdisordered
    obtain ⟨e, he⟩ := exists_expandBelow_eq_error [] hsub hdisordered
    cases (hleaves.symm.trans he : Except.ok leaves = .error e)
  · intro h
    cases hexpand : expand tree with
    | ok leaves => exact ⟨leaves, rfl⟩
    | error e =>
      obtain ⟨sub, hsub, hdisordered, -⟩ := exists_holds_of_expandBelow [] hexpand
      exact absurd hdisordered (h sub hsub)

end Flowgraph.Imports.UseTree

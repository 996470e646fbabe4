import Flowgraph.Proofs.Text.Slice
import Flowgraph.Source
import Mathlib.Data.List.Basic

/-!
# Paths below a root

What the path from a root to a file tells of the file. It names what stands behind the root by its names
alone, so that it leads to the same file exactly if nothing else stands there.
-/

namespace Flowgraph

namespace Path

variable {root path r text : String} {names : List String} {s t piece : List Char} {c : Component}
  {base rest below : List Component}

/-! ## Components -/

/-- The text of a name: it stands between two slashes, and is neither `.` nor `..`. -/
def IsName (s : List Char) : Prop := s ≠ [] ∧ s ≠ ['.'] ∧ s ≠ ['.', '.'] ∧ '/' ∉ s

/-- What stands before the first name of a path. -/
def lead (s : List Char) : List Component :=
  if s.head? = some '/' then [.root]
  else if (Text.splitOn '/' s).head? = some ['.'] then [.current]
  else []

/-- The components that the pieces between slashes stand for. -/
def steps (s : List Char) : List Component := (Text.splitOn '/' s).filterMap Component.ofPiece?

theorem components_eq (path : String) : components path = lead path.toList ++ steps path.toList := by
  rw [components]
  split
  next hnil => simp [hnil, lead, steps, Text.splitOn, Text.splitWhere, Component.ofPiece?]
  next rest hroot => simp [hroot, lead, steps, Text.splitOn, Text.splitWhere, Component.ofPiece?]
  next hne hroot =>
    have hhead : path.toList.head? ≠ some '/' := by
      intro h
      obtain ⟨rest, hrest⟩ := List.head?_eq_some_iff.mp h
      exact hroot rest hrest
    rw [lead, if_neg hhead, steps]
    split <;> simp_all

theorem steps_append : steps (s ++ '/' :: t) = steps s ++ steps t := by
  rw [steps, Text.splitOn, Text.splitWhere_append (p := (· == '/')) (beq_self_eq_true '/'),
    List.filterMap_append]
  rfl

theorem lead_append (hs : s ≠ []) : lead (s ++ '/' :: t) = lead s := by
  obtain ⟨c, cs, rfl⟩ := List.exists_cons_of_ne_nil hs
  obtain ⟨piece, pieces, hpieces⟩ :=
    List.exists_cons_of_ne_nil (Text.splitWhere_ne_nil (p := (· == '/')) (s := c :: cs))
  rw [lead, lead, Text.splitOn, Text.splitWhere_append (p := (· == '/')) (beq_self_eq_true '/'),
    Text.splitOn, hpieces]
  rfl

theorem components_append (hroot : root ≠ "") :
    components (root ++ "/" ++ r) = components root ++ steps r.toList := by
  have hne : root.toList ≠ [] := fun h => hroot (String.toList_eq_nil_iff.mp h)
  have hlist : (root ++ "/" ++ r).toList = root.toList ++ '/' :: r.toList := by simp
  rw [components_eq, components_eq, hlist, lead_append hne, steps_append, List.append_assoc]

theorem ofPiece?_cases (h : Component.ofPiece? piece = some c) (hslash : '/' ∉ piece) :
    c = .parent ∨ c = .name (String.ofList piece) ∧ IsName piece := by
  rw [Component.ofPiece?] at h
  split at h
  next => cases h
  next hkept =>
    simp only [Bool.or_eq_true, List.isEmpty_iff, beq_iff_eq, not_or] at hkept
    split at h
    next => exact .inl (Option.some.inj h).symm
    next hparent =>
      simp only [beq_iff_eq] at hparent
      exact .inr ⟨(Option.some.inj h).symm, hkept.1, hkept.2, hparent, hslash⟩

theorem ofPiece?_of_isName (h : IsName piece) :
    Component.ofPiece? piece = some (.name (String.ofList piece)) := by
  obtain ⟨hne, hcurrent, hparent, -⟩ := h
  simp [Component.ofPiece?, hne, hcurrent, hparent]

/-- Behind the start of a path stand names and `..` alone. -/
theorem mem_steps (h : c ∈ steps s) : c = .parent ∨ ∃ text, c = .name text ∧ IsName text.toList := by
  obtain ⟨piece, hpiece, hc⟩ := List.mem_filterMap.mp h
  refine (ofPiece?_cases hc (Text.not_mem_of_mem_splitOn hpiece)).imp_right fun ⟨hname, htext⟩ => ?_
  exact ⟨_, hname, by rwa [String.toList_ofList]⟩

theorem isName_of_mem_components (h : .name text ∈ components path) : IsName text.toList := by
  rw [components_eq, List.mem_append] at h
  rcases h with h | h
  · rw [lead] at h
    split at h
    · simp at h
    · split at h <;> simp at h
  · obtain heq | ⟨text, heq, hname⟩ := mem_steps h
    · cases heq
    · cases heq
      exact hname

theorem mem_tail_components (h : c ∈ (components path).tail) : c = .parent ∨ ∃ text, c = .name text := by
  have hsteps : c ∈ steps path.toList := by
    rw [components_eq, lead] at h
    split at h
    · exact h
    · split at h
      · exact h
      · exact List.mem_of_mem_tail h
  exact (mem_steps hsteps).imp_right fun ⟨text, hc, _⟩ => ⟨text, hc⟩

/-! ## Names -/

/-- The texts between the slashes of a path. -/
def segments (path : String) : List String := (Text.splitOn '/' path.toList).map String.ofList

theorem splitOn_ofNames (hne : names ≠ []) (hnames : ∀ name ∈ names, IsName name.toList) :
    Text.splitOn '/' (ofNames names).toList = names.map String.toList := by
  rw [ofNames, String.toList_ofList]
  refine Text.splitOn_join (mt List.map_eq_nil_iff.mp hne) ?_
  simpa using fun name hname => (hnames name hname).2.2.2

theorem segments_ofNames (hne : names ≠ []) (hnames : ∀ name ∈ names, IsName name.toList) :
    segments (ofNames names) = names := by
  rw [segments, splitOn_ofNames hne hnames, List.map_map]
  simp

theorem steps_ofNames (hne : names ≠ []) (hnames : ∀ name ∈ names, IsName name.toList) :
    steps (ofNames names).toList = names.map .name := by
  rw [steps, splitOn_ofNames hne hnames, List.filterMap_map, List.filterMap_eq_map_iff_forall_eq_some]
  intro name hname
  rw [Function.comp_apply, ofPiece?_of_isName (hnames name hname), String.ofList_toList]

theorem isAbsolute_ofNames (hne : names ≠ []) (hnames : ∀ name ∈ names, IsName name.toList) :
    isAbsolute (ofNames names) = false := by
  rw [isAbsolute, beq_eq_false_iff_ne]
  intro hhead
  -- A slash in front would have an empty name before it.
  obtain ⟨rest, hrest⟩ := List.head?_eq_some_iff.mp hhead
  have hsplit := splitOn_ofNames hne hnames
  obtain ⟨name, names, rfl⟩ := List.exists_cons_of_ne_nil hne
  rw [hrest, Text.splitOn, Text.splitWhere, if_pos (beq_self_eq_true '/'), List.map_cons] at hsplit
  exact (hnames name List.mem_cons_self).1 (List.cons.inj hsplit).1.symm

theorem lead_ofNames (hne : names ≠ []) (hnames : ∀ name ∈ names, IsName name.toList) :
    lead (ofNames names).toList = [] := by
  have hhead := isAbsolute_ofNames hne hnames
  rw [isAbsolute, beq_eq_false_iff_ne] at hhead
  rw [lead, if_neg hhead, splitOn_ofNames hne hnames, if_neg]
  obtain ⟨name, names, rfl⟩ := List.exists_cons_of_ne_nil hne
  simpa using (hnames name List.mem_cons_self).2.1

theorem components_ofNames (hne : names ≠ []) (hnames : ∀ name ∈ names, IsName name.toList) :
    components (ofNames names) = names.map .name := by
  rw [components_eq, lead_ofNames hne hnames, steps_ofNames hne hnames, List.nil_append]

theorem isContained_ofNames (hne : names ≠ []) (hnames : ∀ name ∈ names, IsName name.toList) :
    isContained (ofNames names) = true := by
  rw [isContained, components_ofNames hne hnames, List.all_map, List.all_eq_true]
  exact fun name _ => rfl

/-! ## Below a root -/

theorem dropRoot?_eq_some : dropRoot? base below = some rest ↔ below = base ++ rest := by
  induction base generalizing below with
  | nil => simp [dropRoot?, eq_comm]
  | cons c base ih =>
    cases below with
    | nil => simp [dropRoot?]
    | cons c' below =>
      rw [dropRoot?, List.cons_append, List.cons.injEq]
      split
      next heq => rw [ih, and_iff_right heq.symm]
      next hne => exact ⟨nofun, fun h => absurd h.1.symm hne⟩

theorem relative?_eq_some : relative? root path = some r ↔
    ∃ rest, components path = components root ++ rest ∧ rest.filterMap Component.name? ≠ [] ∧
      r = ofNames (rest.filterMap Component.name?) := by
  rw [relative?]
  cases hbehind : behind? root path with
  | none =>
    refine ⟨nofun, fun ⟨rest, hpath, _⟩ => ?_⟩
    rw [behind?, dropRoot?_eq_some.mpr hpath] at hbehind
    cases hbehind
  | some rest =>
    have hpath := dropRoot?_eq_some.mp hbehind
    simp only [Option.ite_none_left_eq_some, List.isEmpty_iff, Option.some.injEq]
    constructor
    · rintro ⟨hne, rfl⟩
      exact ⟨rest, hpath, hne, rfl⟩
    · rintro ⟨rest', hpath', hne, rfl⟩
      obtain rfl := List.append_cancel_left (hpath.symm.trans hpath')
      exact ⟨hne, rfl⟩

/-- The names alone make up all components exactly if each of them is a name. -/
theorem map_name_filterMap_name? :
    (rest.filterMap Component.name?).map Component.name = rest ↔ ∀ c ∈ rest, c.name?.isSome := by
  induction rest with
  | nil => simp
  | cons c rest ih =>
    cases c with
    | name text => simp [Component.name?, ih]
    | root | current | parent =>
      -- Whatever is no name is left out, so that there are fewer names than components.
      have hshort := List.length_filterMap_le Component.name? rest
      refine iff_of_false (fun h => ?_) (by simp [Component.name?])
      have hlength := congrArg List.length h
      rw [List.filterMap_cons_none rfl, List.length_map, List.length_cons] at hlength
      omega

/-- Behind a root that is not empty, whatever is no name leads up. -/
theorem forall_name_iff_of_ne_nil (hpath : components path = base ++ rest) (hbase : base ≠ []) :
    (∀ c ∈ rest, c.name?.isSome) ↔ .parent ∉ rest := by
  obtain ⟨first, base, rfl⟩ := List.exists_cons_of_ne_nil hbase
  have htail (c : Component) (hc : c ∈ rest) : c = .parent ∨ ∃ text, c = .name text := by
    have hmem : c ∈ (components path).tail := by
      rw [hpath, List.cons_append, List.tail_cons]
      exact List.mem_append_right base hc
    exact mem_tail_components hmem
  constructor
  · intro hall hparent
    cases hall _ hparent
  · intro hnone c hc
    obtain rfl | ⟨text, rfl⟩ := htail c hc
    · exact absurd hc hnone
    · rfl

/-- A path taken from a directory, or as it is where there is none. -/
def under (base path : String) : String := if base = "" then path else resolveIn base path

theorem components_under (hne : names ≠ []) (hnames : ∀ name ∈ names, IsName name.toList) :
    components (under root (ofNames names)) = components root ++ names.map .name := by
  rw [under]
  split
  next hroot => rw [hroot, components_ofNames hne hnames]; rfl
  next hroot =>
    rw [resolveIn, isAbsolute_ofNames hne hnames, if_neg Bool.false_ne_true, components_append hroot,
      steps_ofNames hne hnames]

/-- The path from a root to a file names what stands behind the root by its names. Taken from the root it
leads to the file again exactly if all that stands there are names, that is, if there is no `..` behind a
root that is not empty. In any case it can be read in the root: it leads to no place outside of it. -/
theorem components_under_eq_iff (h : relative? root path = some r) :
    ∃ rest, components path = components root ++ rest ∧
      segments r = rest.filterMap Component.name? ∧
      (components path = components root ++ (segments r).map .name ↔ ∀ c ∈ rest, c.name?.isSome) ∧
      (components (under root r) = components path ↔ ∀ c ∈ rest, c.name?.isSome) ∧
      (components root ≠ [] → ((∀ c ∈ rest, c.name?.isSome) ↔ .parent ∉ rest)) ∧
      ∀ tree : FileTree, tree.readContained r = (tree.read r).mapError .io := by
  obtain ⟨rest, hpath, hne, rfl⟩ := relative?_eq_some.mp h
  have hnames : ∀ name ∈ rest.filterMap Component.name?, IsName name.toList := by
    intro name hname
    obtain ⟨c, hc, heq⟩ := List.mem_filterMap.mp hname
    cases c with
    | name text =>
      obtain rfl := Option.some.inj heq
      exact isName_of_mem_components (hpath ▸ List.mem_append_right _ hc)
    | root | current | parent => cases heq
  have hsegments := segments_ofNames hne hnames
  refine ⟨rest, hpath, hsegments, ?_, ?_, fun hroot => ?_, fun tree => ?_⟩
  · rw [hsegments, hpath, List.append_right_inj, eq_comm, map_name_filterMap_name?]
  · rw [components_under hne hnames, hpath, List.append_right_inj, map_name_filterMap_name?]
  · exact forall_name_iff_of_ne_nil hpath hroot
  · rw [FileTree.readContained, isContained_ofNames hne hnames, if_pos rfl]

theorem components_under_eq_iff_of_repeated_slashes :
    relative? "/ws" "/ws/./pkg//mod.py/" = some "pkg/mod.py" ∧
      components (under "/ws" "pkg/mod.py") = components "/ws/./pkg//mod.py/" ∧
      ∀ tree : FileTree,
        tree.readContained "pkg/mod.py" = (tree.read "pkg/mod.py").mapError .io := by
  have hrelative : relative? "/ws" "/ws/./pkg//mod.py/" = some "pkg/mod.py" := by decide +kernel
  obtain ⟨rest, hpath, -, -, hsame, hnames, hread⟩ := components_under_eq_iff hrelative
  have hbelow : components "/ws/./pkg//mod.py/" =
      components "/ws" ++ [.name "pkg", .name "mod.py"] := by decide +kernel
  obtain rfl := List.append_cancel_left (hpath.symm.trans hbelow)
  exact ⟨hrelative, hsame.mpr ((hnames (by decide +kernel)).mpr (by decide)), hread⟩

/-- A file beside the root, which is taken for one in it. -/
theorem exists_relative_of_other_file :
    ∃ root path r, relative? root path = some r ∧
      components path ≠ components root ++ (segments r).map .name ∧
      components (under root r) ≠ components path :=
  ⟨"/ws", "/ws/../other/a.py", "other/a.py", by decide +kernel⟩

end Path

end Flowgraph

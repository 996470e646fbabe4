import Flowgraph.Imports.Python
import Flowgraph.Imports.Rust
import Flowgraph.Path
import Flowgraph.Proofs.Text.Slice
import Flowgraph.Resolver.Specifier

/-!
# Relative specifiers

A module that is named relative to a file, from its directory or any number of levels above, is written
as a specifier that leads back to that module.
-/

namespace Flowgraph

open Imports

namespace Resolver

variable {reached dirs parts : List (List Char)} {s part : List Char} {n up : Nat}

/-! ## Following parts -/

/-- A part of a path or of the name of a module, such as an identifier. -/
def IsSegment (s : List Char) : Prop := s ≠ [] ∧ '.' ∉ s ∧ '/' ∉ s

instance : Decidable (IsSegment s) := inferInstanceAs (Decidable (_ ∧ _ ∧ _))

theorem followParts_cons_of_isSegment (hpart : IsSegment part) :
    followParts reached (part :: parts) = followParts (part :: reached) parts := by
  obtain ⟨hne, hdot, -⟩ := hpart
  have hempty : part.isEmpty = false := by simpa using hne
  have hcurrent : (part == ['.']) = false := beq_false_of_ne fun h => hdot (by simp [h])
  have hparent : (part == ['.', '.']) = false := beq_false_of_ne fun h => hdot (by simp [h])
  simp [followParts, hempty, hcurrent, hparent]

/-- Names lead down. -/
theorem followParts_append (hparts : ∀ part ∈ parts, IsSegment part) {more : List (List Char)} :
    followParts reached (parts ++ more) = followParts (parts.reverse ++ reached) more := by
  induction parts generalizing reached with
  | nil => rfl
  | cons part parts ih =>
    rw [List.forall_mem_cons] at hparts
    rw [List.cons_append, followParts_cons_of_isSegment hparts.1, ih hparts.2, List.reverse_cons,
      List.append_assoc, List.singleton_append]

/-- Each `..` leads up by one level, unless there is none. -/
theorem followParts_replicate :
    followParts reached (List.replicate n ['.', '.'] ++ parts) =
      if n ≤ reached.length then followParts (reached.drop n) parts else none := by
  induction n generalizing reached with
  | zero => simp
  | succ n ih =>
    cases reached with
    | nil => rfl
    | cons d above =>
      have hstep : followParts (d :: above) (List.replicate (n + 1) ['.', '.'] ++ parts) =
          followParts above (List.replicate n ['.', '.'] ++ parts) := rfl
      rw [hstep, ih]
      simp

/-- The parts that lead `up` levels up. -/
def ascent : Nat → List (List Char)
  | 0 => [['.']]
  | n + 1 => List.replicate (n + 1) ['.', '.']

theorem ascent_ne_nil : ascent up ≠ [] := by cases up <;> simp [ascent]

theorem followParts_ascent :
    followParts reached (ascent up ++ parts) =
      if up ≤ reached.length then followParts (reached.drop up) parts else none := by
  cases up with
  | zero => simp [ascent, followParts]
  | succ n => exact followParts_replicate

/-- The parts of names, or an empty one where there are none: what stands behind a slash. -/
def descent (names : List String) : List (List Char) :=
  if names = [] then [[]] else names.map String.toList

theorem descent_nil : descent [] = [[]] := rfl

theorem descent_of_ne_nil {names : List String} (hne : names ≠ []) :
    descent names = names.map String.toList := if_neg hne

theorem not_mem_of_mem_ascent (hpart : part ∈ ascent up) : '/' ∉ part := by
  cases up with
  | zero => obtain rfl := List.mem_singleton.1 hpart; decide
  | succ n => obtain rfl := List.eq_of_mem_replicate hpart; decide

/-! ## Joining -/

theorem directory_join (hfile : '/' ∉ s) :
    directory (Text.join ['/'] (dirs ++ [s])) = Text.join ['/'] dirs := by
  rw [directory]
  cases dirs with
  | nil =>
    have hjoin : Text.join ['/'] ([] ++ [s]) = s := rfl
    rw [hjoin, Text.splitOnceLast_eq_none.2 hfile, Text.join]
  | cons d dirs =>
    rw [Text.join_append (List.cons_ne_nil d dirs) (List.cons_ne_nil s []), Text.join,
      List.singleton_append, Text.splitOnceLast_append_cons hfile]

theorem filter_splitOn_join (hdirs : ∀ d ∈ dirs, d ≠ [] ∧ '/' ∉ d) :
    (Text.splitOn '/' (Text.join ['/'] dirs)).filter (!·.isEmpty) = dirs := by
  by_cases hnil : dirs = []
  · subst hnil
    rfl
  · rw [Text.splitOn_join hnil fun d hd => (hdirs d hd).2, List.filter_eq_self]
    exact fun d hd => by simpa using (hdirs d hd).1

theorem joinRelative_join (hdirs : ∀ d ∈ dirs, d ≠ [] ∧ '/' ∉ d) (hne : parts ≠ [])
    (hparts : ∀ part ∈ parts, '/' ∉ part) :
    joinRelative (Text.join ['/'] dirs) (Text.join ['/'] parts) =
      (followParts dirs.reverse parts).map fun reached => Text.join ['/'] reached.reverse := by
  rw [joinRelative, filter_splitOn_join hdirs, Text.splitOn_join hne hparts]

theorem isRelative_join_ascent : isRelative (Text.join ['/'] (ascent up ++ parts)) = true := by
  have hjoin (part : List Char) (more : List (List Char)) :
      Text.join ['/'] (part :: more) = part ∨
        (Text.dropLead? (part ++ ['/']) (Text.join ['/'] (part :: more))).isSome := by
    cases more with
    | nil => exact .inl rfl
    | cons next more =>
      refine .inr (Option.isSome_iff_exists.2 ⟨Text.join ['/'] (next :: more), ?_⟩)
      rw [Text.dropLead?_eq_some, Text.join_cons (List.cons_ne_nil next more), List.append_assoc]
  cases up with
  | zero => obtain h | h := hjoin ['.'] parts <;> simp_all [ascent, isRelative]
  | succ n =>
    obtain h | h := hjoin ['.', '.'] (List.replicate n ['.', '.'] ++ parts) <;>
      simp_all [ascent, isRelative, List.replicate_succ]

/-- The path of `names` below the directory that lies `up` levels above `dirs`, unless that lies above
the workspace. -/
def below? (dirs : List String) (up : Nat) (names : List String) : Option String :=
  if up ≤ dirs.length then some (Path.ofNames (dirs.take (dirs.length - up) ++ names)) else none

/-- Parts that lead up and then down, with or without a slash at the end where there are no names. -/
theorem joinRelative_ascent {dirs names : List String} {parts : List (List Char)}
    (hdirs : ∀ d ∈ dirs, d ≠ "" ∧ '/' ∉ d.toList) (hnames : ∀ m ∈ names, IsSegment m.toList)
    (hparts : parts = names.map String.toList ∨ parts = descent names) :
    joinRelative (Text.join ['/'] (dirs.map String.toList)) (Text.join ['/'] (ascent up ++ parts)) =
      (below? dirs up names).map String.toList := by
  have hdirs' : ∀ d ∈ dirs.map String.toList, d ≠ [] ∧ '/' ∉ d := by simpa using hdirs
  have hsegments : ∀ part ∈ names.map String.toList, IsSegment part := by simpa using hnames
  -- Only where no name follows is there a piece that is none, the empty one behind the last slash.
  have hcases : parts = names.map String.toList ∨ names = [] ∧ parts = [[]] := by
    by_cases hnil : names = []
    · subst hnil
      exact hparts.imp_right fun h => ⟨rfl, h⟩
    · exact .inl (hparts.elim id fun h => h.trans (descent_of_ne_nil hnil))
  have hslash : ∀ part ∈ ascent up ++ parts, '/' ∉ part := by
    intro part hpart
    obtain hpart | hpart := List.mem_append.1 hpart
    · exact not_mem_of_mem_ascent hpart
    · obtain rfl | ⟨-, rfl⟩ := hcases
      · exact (hsegments part hpart).2.2
      · rw [List.mem_singleton.1 hpart]
        exact List.not_mem_nil
  have hdown (reached : List (List Char)) :
      followParts reached parts = some ((names.map String.toList).reverse ++ reached) := by
    obtain rfl | ⟨rfl, rfl⟩ := hcases
    · have hall : followParts reached (names.map String.toList ++ []) =
          followParts ((names.map String.toList).reverse ++ reached) [] := followParts_append hsegments
      rwa [List.append_nil] at hall
    · rfl
  rw [joinRelative_join hdirs' (List.append_ne_nil_of_left_ne_nil ascent_ne_nil _) hslash,
    followParts_ascent, below?, List.length_reverse, List.length_map]
  split
  case isTrue hup =>
    rw [hdown, Option.map_some, Option.map_some, Path.ofNames, String.toList_ofList, List.reverse_append,
      List.reverse_reverse, List.drop_reverse, List.reverse_reverse, List.length_map, List.map_append,
      List.map_take]
  case isFalse hup => rfl

/-- The specifier is recognised as relative in the file, and leads to the path `target`. -/
def RefersTo (importer : String) (specifier : List Char) (target : Option String) : Prop :=
  isRelative specifier = true ∧
    joinRelative (directory importer.toList) specifier = target.map String.toList

end Resolver

/-! ## Written specifiers -/

namespace Imports

open Resolver (IsSegment ascent descent)

variable {names : List String} {parts : List (List Char)} {up : Nat}

/-- The name of a module behind dots: one for the directory of the file, and one more for each level
above. -/
def Python.moduleName (dots : Nat) (names : List String) : List Char :=
  List.replicate dots '.' ++ Text.join ['.'] (names.map String.toList)

theorem Python.map_join (hparts : ∀ part ∈ parts, IsSegment part) :
    (Text.join ['.'] parts).map (fun c => if c == '.' then '/' else c) = Text.join ['/'] parts := by
  induction parts with
  | nil => rfl
  | cons part rest ih =>
    rw [List.forall_mem_cons] at hparts
    have hpart : part.map (fun c => if c == '.' then '/' else c) = part.map id :=
      List.map_congr_left fun c hc => if_neg (by rintro h; exact hparts.1.2.1 (eq_of_beq h ▸ hc))
    rw [List.map_id] at hpart
    cases rest with
    | nil => exact hpart
    | cons next rest =>
      rw [Text.join_cons (List.cons_ne_nil next rest), Text.join_cons (List.cons_ne_nil next rest),
        List.map_append, List.map_append, hpart, ih hparts.2]
      rfl

theorem Python.takeWhile_join (hparts : ∀ part ∈ parts, IsSegment part) :
    (Text.join ['.'] parts).takeWhile (· == '.') = [] := by
  cases parts with
  | nil => rfl
  | cons part rest =>
    obtain ⟨hne, hdot, -⟩ := hparts part List.mem_cons_self
    obtain ⟨c, cs, rfl⟩ := List.exists_cons_of_ne_nil hne
    have hc : c ≠ '.' := fun h => hdot (h ▸ List.mem_cons_self)
    cases rest <;> simp [Text.join, hc]

theorem flatten_replicate_parent (n : Nat) :
    (List.replicate (n + 1) ['.', '.', '/']).flatten = Text.join ['/'] (ascent (n + 1)) ++ ['/'] := by
  induction n with
  | zero => rfl
  | succ n ih =>
    have hcons : ascent (n + 2) = ['.', '.'] :: ascent (n + 1) := rfl
    rw [List.replicate_succ, List.flatten_cons, ih, hcons, Text.join_cons Resolver.ascent_ne_nil]
    rfl

/-- Dots in front of a module are written as the parts that lead up, with no slash at the end. -/
theorem Python.specifier_moduleName (hnames : ∀ m ∈ names, IsSegment m.toList) :
    Python.specifier (Python.moduleName (up + 1) names) =
      Text.join ['/'] (ascent up ++ names.map String.toList) := by
  have hparts : ∀ part ∈ names.map String.toList, IsSegment part := by simpa using hnames
  rw [Python.moduleName]
  generalize names.map String.toList = parts at hparts
  have hdots : (List.replicate (up + 1) '.' ++ Text.join ['.'] parts).takeWhile (· == '.') =
      List.replicate (up + 1) '.' := by
    rw [List.takeWhile_append_of_pos (by simp), Python.takeWhile_join hparts, List.append_nil]
  have hdrop : (List.replicate (up + 1) '.' ++ Text.join ['.'] parts).drop (up + 1) =
      Text.join ['.'] parts := List.drop_left' List.length_replicate
  simp only [Python.specifier, hdots, List.length_replicate, hdrop, Python.map_join hparts]
  by_cases hnil : parts = []
  · subst hnil
    cases up with
    | zero => rfl
    | succ n => simp [flatten_replicate_parent, Text.join]
  · have hne : (Text.join ['/'] parts).isEmpty = false := by
      obtain ⟨part, rest, rfl⟩ := List.exists_cons_of_ne_nil hnil
      obtain ⟨c, cs, rfl⟩ := List.exists_cons_of_ne_nil (hparts part List.mem_cons_self).1
      cases rest <;> rfl
    rw [hne, Text.join_append Resolver.ascent_ne_nil hnil]
    cases up with
    | zero => rfl
    | succ n => simp [flatten_replicate_parent]

theorem Rust.toList_append_intercalate {lead : String}
    (hlead : lead.toList = Text.join ['/'] (ascent up) ++ ['/']) :
    (lead ++ "/".intercalate names).toList = Text.join ['/'] (ascent up ++ descent names) := by
  rw [String.toList_append, hlead, String.toList_intercalate, ← Text.join_eq_intercalate,
    List.append_assoc]
  by_cases hnil : names = []
  · subst hnil
    rw [Resolver.descent_nil, Text.join_append Resolver.ascent_ne_nil (List.cons_ne_nil _ _)]
    rfl
  · rw [Resolver.descent_of_ne_nil hnil,
      Text.join_append Resolver.ascent_ne_nil (mt List.map_eq_nil_iff.1 hnil)]
    rfl

theorem Rust.specifier_super (hsuper : "super" ∉ names) :
    (Rust.specifier (List.replicate (up + 1) "super" ++ names)).toList =
      Text.join ['/'] (ascent up ++ descent names) := by
  have htake : names.takeWhile (· == "super") = [] := by
    cases names with
    | nil => rfl
    | cons m names => exact List.takeWhile_cons_of_neg fun h => hsuper (by simp [eq_of_beq h])
  have hups : (List.replicate up "super" ++ names).takeWhile (· == "super") =
      List.replicate up "super" := by
    rw [List.takeWhile_append_of_pos (by simp), htake, List.append_nil]
  have hdrop : (List.replicate up "super" ++ names).drop up = names :=
    List.drop_left' List.length_replicate
  rw [List.replicate_succ, List.cons_append]
  simp only [Rust.specifier, hups, List.length_replicate, hdrop]
  refine Rust.toList_append_intercalate ?_
  cases up with
  | zero => rfl
  | succ n =>
    rw [if_neg (by simp), String.toList_join, ← flatten_replicate_parent, List.flatMap_replicate]
    rfl

theorem Rust.specifier_self :
    (Rust.specifier ("self" :: names)).toList =
      Text.join ['/'] (ascent 0 ++ descent names) := by
  simp only [Rust.specifier]
  exact Rust.toList_append_intercalate rfl

end Imports

namespace Resolver

/-- A module that is named by its place relative to a file, in the directory of the file or `up` levels
above it, is found in that place, or nowhere if the place lies above the workspace. -/
theorem refersTo_of_relative {importer file : String} {dirs names : List String} (up : Nat)
    (himporter : importer = Path.ofNames (dirs ++ [file])) (hfile : '/' ∉ file.toList)
    (hdirs : ∀ d ∈ dirs, d ≠ "" ∧ '/' ∉ d.toList) (hnames : ∀ m ∈ names, IsSegment m.toList) :
    RefersTo importer (Python.specifier (Python.moduleName (up + 1) names)) (below? dirs up names) ∧
      ("super" ∉ names →
        RefersTo importer (Rust.specifier (List.replicate (up + 1) "super" ++ names)).toList
          (below? dirs up names)) ∧
      RefersTo importer (Rust.specifier ("self" :: names)).toList
        (some (Path.ofNames (dirs ++ names))) := by
  have hdir : directory importer.toList = Text.join ['/'] (dirs.map String.toList) := by
    rw [himporter, Path.ofNames, String.toList_ofList, List.map_append]
    exact directory_join hfile
  have hleads {up : Nat} {parts : List (List Char)}
      (hparts : parts = names.map String.toList ∨ parts = descent names) :
      RefersTo importer (Text.join ['/'] (ascent up ++ parts)) (below? dirs up names) :=
    ⟨isRelative_join_ascent, hdir ▸ joinRelative_ascent hdirs hnames hparts⟩
  refine ⟨?python, fun hsuper => ?super, ?self⟩
  case python =>
    rw [Python.specifier_moduleName hnames]
    exact hleads (.inl rfl)
  case super =>
    rw [Rust.specifier_super hsuper]
    exact hleads (.inr rfl)
  case self =>
    have hhere : below? dirs 0 names = some (Path.ofNames (dirs ++ names)) := by simp [below?]
    rw [Rust.specifier_self, ← hhere]
    exact hleads (.inr rfl)

theorem refersTo_of_relative_two_levels :
    (∀ d ∈ ["app", "llm"], d ≠ "" ∧ '/' ∉ d.toList) ∧ (∀ m ∈ ["tools", "web"], IsSegment m.toList) ∧
      RefersTo "app/llm/agent.py" (Python.specifier "..tools.web".toList) (some "app/tools/web") ∧
      RefersTo "app/llm/agent.py" (Python.specifier "....tools.web".toList) none ∧
      RefersTo "app/llm/agent.py" (Rust.specifier ["super", "super", "tools", "web"]).toList
        (some "app/tools/web") ∧
      RefersTo "app/llm/agent.py" (Rust.specifier ["self", "tools", "web"]).toList
        (some "app/llm/tools/web") := by
  have himporter : "app/llm/agent.py" = Path.ofNames (["app", "llm"] ++ ["agent.py"]) := by decide
  have hdirs : ∀ d ∈ ["app", "llm"], d ≠ "" ∧ '/' ∉ d.toList := by decide
  have hnames : ∀ m ∈ ["tools", "web"], IsSegment m.toList := by decide
  obtain ⟨hpython, hrust, hself⟩ := refersTo_of_relative 1 himporter (by decide) hdirs hnames
  obtain ⟨houtside, -, -⟩ := refersTo_of_relative 3 himporter (by decide) hdirs hnames
  exact ⟨hdirs, hnames, hpython, houtside, hrust (by decide), hself⟩

end Resolver

end Flowgraph

import Flowgraph.Imports.File
import Flowgraph.Proofs.Imports.UseTree.Expansion
import Flowgraph.Proofs.Text.Pattern

/-!
# Reading imports and exports of any text

Whatever the text, its exports can be read, and so can its imports, with one exception: a use
declaration that holds an item whose braces are out of order.
-/

namespace Flowgraph.Imports

variable {source : List Char} {trees : List (List Char)} {e : ImportError}

/-- The use tree holds, at any depth, an item with its braces out of order. -/
def UseTree.IsBroken (tree : List Char) : Prop :=
  ∃ sub, Holds tree sub ∧ IsDisordered (Text.trim sub)

namespace Rust

/-- The trees of the use declarations of a text. -/
def useTrees (source : List Char) : List (List Char) := (usePattern.findAll source).map (·.group 1)

theorem allUseBindings_eq_mapM : allUseBindings trees = (trees.mapM useBindings).map List.flatten := by
  induction trees with
  | nil => rfl
  | cons tree trees ih =>
    rw [allUseBindings, ih, List.mapM_cons]
    cases useBindings tree with
    | error e => rfl
    | ok bs => cases trees.mapM useBindings <;> rfl

theorem exists_useBindings_eq_ok_iff {tree : List Char} :
    (∃ bs, useBindings tree = .ok bs) ↔ ¬UseTree.IsBroken tree := by
  rw [UseTree.IsBroken, not_exists]
  simp only [not_and]
  exact Outcome.exists_map_eq_ok.trans UseTree.exists_expand_eq_ok_iff

theorem exists_bindings_eq_ok_iff :
    (∃ bs, bindings source = .ok bs) ↔ ∀ tree ∈ useTrees source, ¬UseTree.IsBroken tree := by
  simp only [← exists_useBindings_eq_ok_iff, ← Outcome.exists_mapM_eq_ok_iff]
  rw [bindings, Outcome.exists_map_eq_ok, allUseBindings_eq_mapM, Outcome.exists_map_eq_ok, useTrees]

/-- The error names the item that stopped the reading. -/
theorem exists_of_bindings_eq_error (h : bindings source = .error e) :
    ∃ tree ∈ useTrees source, ∃ sub, UseTree.Holds tree sub ∧
      UseTree.IsDisordered (Text.trim sub) ∧ e = .bracesOutOfOrder (String.ofList (Text.trim sub)) := by
  rw [bindings, Outcome.map_eq_error, ← useTrees, allUseBindings_eq_mapM, Outcome.map_eq_error] at h
  obtain ⟨tree, htree, hfails⟩ := Outcome.exists_of_mapM_eq_error h
  exact ⟨tree, htree, UseTree.exists_holds_of_expandBelow [] (Outcome.map_eq_error.1 hfails)⟩

end Rust

/-! ## Captures -/

/-- The captures that are read from the matches of the patterns of a language. -/
def readCaptures : Language → List (Pattern × Nat)
  | .python =>
    [(Python.importPattern, 1), (Python.fromPattern, 1), (Python.fromPattern, 2),
      (Python.exportList, 1), (Python.quotedName, 1), (Python.topLevelFunction, 1)]
  | .javaScript | .typeScript | .tsx =>
    [(Ecmascript.importPattern, 1), (Ecmascript.importPattern, 2), (Ecmascript.requirePattern, 1),
      (Ecmascript.requirePattern, 2), (Ecmascript.declarationPattern, 1), (Ecmascript.listPattern, 1),
      (Ecmascript.defaultPattern, 1), (Ecmascript.objectPattern, 1), (Ecmascript.assignedPattern, 1),
      (Ecmascript.propertyPattern, 1)]
  | .rust => [(Rust.usePattern, 1), (Rust.modulePattern, 1), (Rust.publicFunction, 1)]
  | _ => []

theorem binds_of_mem_readCaptures {l : Language} {read : Pattern × Nat} (h : read ∈ readCaptures l) :
    read.1.Binds read.2 := by
  have hpython : ∀ read ∈ readCaptures .python, read.1.Binds read.2 := by
    simp [readCaptures, Python.importPattern, Python.fromPattern, Python.exportList, Python.quotedName,
      Python.topLevelFunction]
  have hecmascript : ∀ read ∈ readCaptures .javaScript, read.1.Binds read.2 := by
    simp [readCaptures, Ecmascript.importPattern, Ecmascript.requirePattern,
      Ecmascript.declarationPattern, Ecmascript.listPattern, Ecmascript.defaultPattern,
      Ecmascript.objectPattern, Ecmascript.assignedPattern, Ecmascript.propertyPattern,
      Ecmascript.nameToLineEnd]
  have hrust : ∀ read ∈ readCaptures .rust, read.1.Binds read.2 := by
    simp [readCaptures, Rust.usePattern, Rust.modulePattern, Rust.publicFunction]
  cases l with
  | python => exact hpython _ h
  | javaScript | typeScript | tsx => exact hecmascript _ h
  | rust => exact hrust _ h
  | _ => cases h

/-! ## Files -/

/-- Reading the imports of a text fails exactly where a use declaration has an item with its braces out
of order, and names one. Nothing else can stop it or the reading of exports: the depth of groups does
not matter, as the items of a group are shorter than the group, and every capture that is read has been
made. -/
theorem exists_imports_eq_ok_iff (l : Language) (source : String) :
    ((∃ bs, imports l source = .ok bs) ↔
      (l = .rust → ∀ tree ∈ Rust.useTrees source.toList, ¬UseTree.IsBroken tree)) ∧
    (∀ e, imports l source = .error e →
      ∃ tree ∈ Rust.useTrees source.toList, ∃ sub, UseTree.Holds tree sub ∧
        UseTree.IsDisordered (Text.trim sub) ∧
          e = .bracesOutOfOrder (String.ofList (Text.trim sub))) ∧
    (∀ base item n, item.length < n →
      UseTree.expandFrom n base item = UseTree.expandFrom (item.length + 1) base item) ∧
    ∀ read ∈ readCaptures l, ∀ s m, (read.1.find? s = some m ∨ m ∈ read.1.findAll s) →
      Pattern.Bound read.2 m.captures := by
  refine ⟨?_, ?_, fun base item n hn => UseTree.expandFrom_congr hn (Nat.lt_succ_self _), ?_⟩
  · cases l with
    | rust =>
      have hrust := @Rust.exists_bindings_eq_ok_iff source.toList
      simpa [imports] using hrust
    | _ => simp [imports]
  · intro e he
    cases l with
    | rust => exact Rust.exists_of_bindings_eq_error he
    | _ => cases he
  · rintro read hread s m (hm | hm)
    · exact (binds_of_mem_readCaptures hread).bound_of_findAfter? hm
    · obtain ⟨prev, rest, hm⟩ := Pattern.exists_findAfter?_of_mem_findAll hm
      exact (binds_of_mem_readCaptures hread).bound_of_findAfter? hm

/-- Between two use declarations the semicolon is missing, so that the second is read as a part of the
first, and the text between the first opening and the last closing brace has its own out of order. -/
theorem exists_imports_eq_ok_iff_of_missing_semicolon :
    (∃ tree ∈ Rust.useTrees "use a::\x7bb\x7d\nuse c::\x7bd\x7d;".toList, UseTree.IsBroken tree) ∧
      ¬∃ bs, imports .rust "use a::\x7bb\x7d\nuse c::\x7bd\x7d;" = .ok bs := by
  have htree : "a::\x7bb\x7d\nuse c::\x7bd\x7d".toList ∈
      Rust.useTrees "use a::\x7bb\x7d\nuse c::\x7bd\x7d;".toList := by decide +kernel
  have hgroup : UseTree.IsGroup (Text.trim "a::\x7bb\x7d\nuse c::\x7bd\x7d".toList) "a::".toList
      "b\x7d\nuse c::\x7bd".toList := ⟨[], by decide +kernel⟩
  have hdisordered : UseTree.IsDisordered (Text.trim "b\x7d\nuse c::\x7bd".toList) :=
    ⟨"b\x7d\nuse c::".toList, ['d'], by decide +kernel⟩
  have hbroken : UseTree.IsBroken "a::\x7bb\x7d\nuse c::\x7bd\x7d".toList :=
    ⟨_, .item hgroup (by decide +kernel) (.self _), hdisordered⟩
  refine ⟨⟨_, htree, hbroken⟩, fun hread => ?_⟩
  exact (exists_imports_eq_ok_iff .rust _).1.1 hread rfl _ htree hbroken

/-- The one item is a closing brace in front of an opening one. -/
theorem not_forall_exists_imports_eq_ok : ¬∀ l source, ∃ bs, imports l source = .ok bs := by
  intro h
  obtain ⟨bs, hbs⟩ := h .rust "use \x7d\x7b;"
  have hfails : imports .rust "use \x7d\x7b;" = .error (.bracesOutOfOrder "\x7d\x7b") := by
    decide +kernel
  cases hfails.symm.trans hbs

end Flowgraph.Imports

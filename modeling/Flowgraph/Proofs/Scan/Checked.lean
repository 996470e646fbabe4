import Flowgraph.Extract
import Flowgraph.Proofs.Call.Checked
import Flowgraph.Proofs.Outcome
import Flowgraph.Proofs.Scan.Indentation
import Flowgraph.Proofs.Scan.Ranges
import Mathlib.Data.List.Nodup

/-!
# The header scan within bounds

The scan as one over numbers: blocks are followed from line to line of the whole text, definitions and their
functions are told by their places in lists, and every number is checked before it is used. No check fails,
and the call graph is the same.
-/

namespace Flowgraph

namespace Scan

namespace Checked

/-! ## Ends of blocks -/

/-- A line without strings, cut at the place where a comment starts. -/
def stripNoise (l : Language) (line : List Char) : Except Bounds.Fault (List Char) :=
  let line := Pattern.replaceAll stringLiteral ['"', '"'] line
  match Text.splitOnce l.lineComment.toList line with
  | some (before, _) => Bounds.upTo line before.length
  | none => .ok line

/-- The line on which the block of the header on line `first` ends, from line `k` of `count` on. -/
def braceEndFrom (count first k : Nat) (b : Braces) : List (List Char) → Except Bounds.Fault Nat
  -- This difference stops at zero, so there is nothing to check.
  | [] => .ok (if b.opened then count - 1 else first)
  | line :: below =>
    if !b.opened && decide (first < k) && (Text.trim line).isEmpty then Bounds.difference k 1
    else
      match b.read line with
      | none => .ok k
      | some b' => braceEndFrom count first (k + 1) b' below

/-- The last line of the block of a header, given the text behind the header. -/
def braceBlockEnd (lines : List (List Char)) (first : Nat) (after : List Char) : Except Bounds.Fault Nat :=
  braceEndFrom lines.length first first ⟨0, false⟩ ((lines.drop first).set 0 after)

/-- The line on which the brackets of a header balance, from line `k` on, or else the last line. -/
def headerEndFrom (last k : Nat) (balance : Int) : List (List Char) → Nat
  | [] => last
  | line :: below =>
    let balance := balance + bracketBalance line
    if balance ≤ 0 then k else headerEndFrom k (k + 1) balance below

/-- The last line of the block that is indented deeper than its header. -/
def indentedBlockEnd (lines : List (List Char)) (first : Nat) : Except Bounds.Fault Nat := do
  let header ← Bounds.element lines first
  let headerEnd := headerEndFrom first first 0 (lines.drop first)
  return indentEndFrom (indentWidth header) headerEnd (headerEnd + 1) (lines.drop (headerEnd + 1))

/-! ## Definitions -/

/-- The definition whose header is line `k`. -/
def definition? (l : Language) (lines : List (List Char)) (line : List Char) (k : Nat) :
    Except Bounds.Fault (Option Definition) :=
  match header? l line with
  | none => .ok none
  | some h =>
    let last :=
      match l.blockLayout with
      | .braces => braceBlockEnd lines k h.after
      | .indentation => indentedBlockEnd lines k
    last.map fun last => some ⟨h.name, k, last, h.after⟩

/-- The definitions on the lines of a text. -/
def definitions (l : Language) (lines : List (List Char)) : Except Bounds.Fault (List Definition) :=
  lines.zipIdx.filterMapM fun p => definition? l lines p.1 p.2

/-- The number of the first of the smallest definitions that enclose line `k`. -/
def ownerIndex? (ds : List Definition) (k : Nat) : Except Bounds.Fault (Option Nat) := do
  let heights ← (ds.zipIdx.filter (·.1.encloses k)).mapM fun p =>
    (Bounds.difference p.1.last p.1.first).map fun height => (p.2, height)
  return (heights.minOn? (·.2)).map (·.1)

/-! ## Calls -/

/-- The calls on a line, in order. -/
def callsIn (line : List Char) : Except Bounds.Fault (List String) :=
  (callPattern.findAll line).filterMapM fun m =>
    Call.Checked.normalize (String.ofList (Text.dropEndWhile (· == '(') m.matched))

/-- Adds the calls on a line to function number `i`. -/
def addCalls (fs : List FunctionInfo) (i : Nat) (line : List Char) :
    Except Bounds.Fault (List FunctionInfo) := do
  let f ← Bounds.element fs i
  let calls ← callsIn line
  return fs.set i { f with calls := f.calls ++ calls }

/-- Adds the calls on line `k`. On a header line only the text behind the header is read, and other lines
are read for their owner. -/
def readLine (ds : List Definition) (fs : List FunctionInfo) (line : List Char) (k : Nat) :
    Except Bounds.Fault (List FunctionInfo) := do
  match ds.findIdx? (·.first == k) with
  | some i =>
    let d ← Bounds.element ds i
    addCalls fs i d.after
  | none =>
    match ← ownerIndex? ds k with
    | some i => addCalls fs i line
    | none => return fs

/-- The functions of a text with their calls. -/
def callGraph (l : Language) (source : String) : Except Bounds.Fault CallGraph := do
  let lines ← (Text.lines source.toList).mapM (stripNoise l)
  let ds ← definitions l lines
  let fs ← lines.zipIdx.foldlM (fun fs p => readLine ds fs p.1 p.2)
    (ds.map fun d => ⟨d.name, d.first + 1, d.last + 1, []⟩)
  return CallGraph.ofList fs

end Checked

variable {l : Language} {source : String} {lines below : List (List Char)} {line after : List Char}
  {ds : List Definition} {d e : Definition} {b : Braces} {balance : Int} {count first last i j k : Nat}
  {calls calls' : Definition → List String}

/-! ## Ends of blocks are lines of the text -/

theorem checked_stripNoise (l : Language) (line : List Char) :
    Checked.stripNoise l line = .ok (stripNoise l line) := by
  rw [Checked.stripNoise, stripNoise]
  generalize Pattern.replaceAll stringLiteral ['"', '"'] line = text
  cases hsplit : Text.splitOnce l.lineComment.toList text with
  | none => rfl
  | some pieces =>
    obtain rfl := Text.eq_append_of_splitOnce hsplit
    exact Bounds.upTo_eq_ok.2 ⟨by simp, by simp⟩

/-- A blank line that ends a block has a line above it, the header being one. -/
theorem checked_braceEndFrom (hcount : count = first + j + lines.length) (hlines : 0 < j + lines.length) :
    Checked.braceEndFrom count first (first + j) b lines = .ok (first + braceEndFrom j b lines) := by
  induction lines generalizing j b with
  | nil =>
    rw [List.length_nil, Nat.add_zero] at hcount hlines
    rw [Checked.braceEndFrom, braceEndFrom, hcount, Nat.add_sub_assoc hlines]
    split <;> rfl
  | cons line below ih =>
    have hbelow : decide (first < first + j) = (j != 0) := by
      cases j <;> simp
    rw [Checked.braceEndFrom, braceEndFrom, hbelow]
    split
    next hblank =>
      have hj : j ≠ 0 := by simpa using (Bool.and_eq_true_iff.1 (Bool.and_eq_true_iff.1 hblank).1).2
      refine Bounds.difference_eq_ok.2 ?_
      omega
    · cases b.read line with
      | none => rfl
      | some b' =>
        have hnext : count = first + (j + 1) + below.length := by
          rw [hcount, List.length_cons]
          omega
        exact ih hnext (Nat.add_pos_left j.succ_pos _)

theorem length_eq_of_drop_eq_cons (hdrop : lines.drop k = line :: below) :
    lines.length = k + (below.length + 1) := by
  have hlength := congrArg List.length hdrop
  rw [List.length_drop, List.length_cons] at hlength
  omega

theorem checked_braceBlockEnd (hdrop : lines.drop k = line :: below) :
    Checked.braceBlockEnd lines k after = .ok (k + braceBlockEnd after below) := by
  rw [Checked.braceBlockEnd, hdrop, List.set_cons_zero]
  exact checked_braceEndFrom (j := 0) (length_eq_of_drop_eq_cons hdrop) (by simp)

theorem checked_headerEndFrom (hlast : last = first + (j - 1)) :
    Checked.headerEndFrom last (first + j) balance lines = first + headerEndFrom j balance lines := by
  induction lines generalizing last j balance with
  | nil => exact hlast
  | cons line below ih =>
    simp only [Checked.headerEndFrom, headerEndFrom]
    split
    · rfl
    · exact ih (j := j + 1) rfl

theorem checked_indentedBlockEnd (hdrop : lines.drop k = line :: below) :
    Checked.indentedBlockEnd lines k = .ok (k + indentedBlockEnd line below) := by
  have hheader : Bounds.element lines k = .ok line := by
    rw [Bounds.element_eq_ok, ← List.head?_drop, hdrop, List.head?_cons]
  have hheaderEnd : Checked.headerEndFrom k k 0 (line :: below) = k + headerEndFrom 0 0 (line :: below) :=
    checked_headerEndFrom (j := 0) rfl
  rw [Checked.indentedBlockEnd, hheader, hdrop, hheaderEnd, indentedBlockEnd]
  generalize headerEndFrom 0 0 (line :: below) = headerEnd
  have hbelow : lines.drop (k + (headerEnd + 1)) = below.drop headerEnd := by
    rw [← List.drop_drop, hdrop, List.drop_succ_cons]
  simp only [bind, Except.bind, Nat.add_assoc k, hbelow, indentEndFrom_add]
  rfl

theorem checked_definition? (hdrop : lines.drop k = line :: below) :
    Checked.definition? l lines line k = .ok (definition? l k line below) := by
  rw [Checked.definition?, definition?]
  cases header? l line with
  | none => rfl
  | some h =>
    cases hl : l.blockLayout with
    | braces => simp only [checked_braceBlockEnd hdrop, Except.map, Option.map_some]
    | indentation => simp only [checked_indentedBlockEnd hdrop, Except.map, Option.map_some]

theorem checked_definitionsFrom (hdrop : lines.drop k = below) :
    (below.zipIdx k).filterMapM (fun p => Checked.definition? l lines p.1 p.2) =
      .ok (definitionsFrom l k below) := by
  induction below generalizing k with
  | nil => rfl
  | cons line below ih =>
    rw [List.zipIdx_cons, List.filterMapM_cons, checked_definition? hdrop, ih (drop_eq_cons hdrop).2,
      definitionsFrom]
    cases definition? l k line below <;> rfl

/-! ## Owners by number -/

theorem smallest?_eq_minOn? : smallest? ds = ds.minOn? Definition.height := by
  induction ds with
  | nil => rfl
  | cons d ds ih =>
    rw [smallest?, ih, List.minOn?_cons]
    cases ds.minOn? Definition.height with
    | none => rfl
    | some e => rw [Option.elim_some, minOn, apply_ite some]

theorem minOn?_map {α β : Type} {xs : List α} {g : α → β} {f : β → Nat} :
    (xs.map g).minOn? f = (xs.minOn? (f ∘ g)).map g := by
  induction xs with
  | nil => rfl
  | cons x xs ih =>
    rw [List.map_cons, List.minOn?_cons, List.minOn?_cons, ih, Option.map_some]
    cases xs.minOn? (f ∘ g) with
    | none => rfl
    | some y => simp [minOn, apply_ite g]

/-- The definitions whose heights are compared end where they start or below. -/
theorem exists_ownerIndex? (ds : List Definition) (k : Nat) :
    ∃ o : Option (Definition × Nat), Checked.ownerIndex? ds k = .ok (o.map (·.2)) ∧
      o.map (·.1) = owner? ds k ∧ ∀ p ∈ o, ds[p.2]? = some p.1 := by
  have hheights : (ds.zipIdx.filter (·.1.encloses k)).mapM (fun p : Definition × Nat =>
        (Bounds.difference p.1.last p.1.first).map fun height => (p.2, height)) =
      .ok ((ds.zipIdx.filter (·.1.encloses k)).map fun p => (p.2, p.1.height)) := by
    refine Outcome.mapM_eq_ok fun p hp => ?_
    -- The line in between keeps the difference above zero.
    obtain ⟨hlt, hle⟩ := encloses_iff.1 (List.mem_filter.1 hp).2
    rw [Bounds.difference_eq_ok.2 (Nat.add_sub_cancel' (hlt.le.trans hle))]
    rfl
  refine ⟨(ds.zipIdx.filter (·.1.encloses k)).minOn? (Definition.height ∘ (·.1)), ?_, ?_, fun p hp => ?_⟩
  · simp only [Checked.ownerIndex?, hheights, bind, Except.bind, minOn?_map, Option.map_map]
    rfl
  · have hfilter : (ds.zipIdx.filter (·.1.encloses k)).map (·.1) = ds.filter (·.encloses k) := by
      have hfst := List.filter_map (p := (·.encloses k)) (f := Prod.fst) (l := ds.zipIdx)
      rw [List.zipIdx_map_fst] at hfst
      exact hfst.symm
    rw [← minOn?_map, hfilter, owner?, smallest?_eq_minOn?]
  · exact List.mem_zipIdx_iff_getElem?.1 (List.mem_filter.1 (List.minOn?_mem hp)).1

/-! ## Calls line by line -/

theorem checked_callsIn (line : List Char) : Checked.callsIn line = .ok (callsIn line) := by
  rw [Checked.callsIn, callsIn]
  induction callPattern.findAll line with
  | nil => rfl
  | cons m ms ih =>
    rw [List.filterMapM_cons, Call.Checked.normalize_eq, ih, List.filterMap_cons]
    cases Call.normalize (String.ofList (Text.dropEndWhile (· == '(') m.matched)) <;> rfl

/-- The functions of the definitions, with the calls that have been found for each. -/
def functionsOf (ds : List Definition) (calls : Definition → List String) : List FunctionInfo :=
  ds.map fun d => ⟨d.name, d.first + 1, d.last + 1, calls d⟩

theorem functionsOf_congr (h : ∀ d ∈ ds, calls d = calls' d) : functionsOf ds calls = functionsOf ds calls' :=
  List.map_congr_left fun d hd => by rw [h d hd]

/-- Each definition has its function at its own place. -/
theorem checked_addCalls (hnodup : ds.Nodup) (hd : ds[i]? = some d) :
    Checked.addCalls (functionsOf ds calls) i line =
      .ok (functionsOf ds fun e => calls e ++ if e = d then callsIn line else []) := by
  have hf : Bounds.element (functionsOf ds calls) i = .ok ⟨d.name, d.first + 1, d.last + 1, calls d⟩ := by
    rw [Bounds.element_eq_ok, functionsOf, List.getElem?_map, hd, Option.map_some]
  simp only [Checked.addCalls, hf, checked_callsIn, bind, Except.bind, pure, Except.pure, Except.ok.injEq]
  obtain ⟨hi, rfl⟩ := List.getElem?_eq_some_iff.1 hd
  refine List.ext_getElem? fun j => ?_
  rw [List.getElem?_set, functionsOf, functionsOf, List.getElem?_map, List.getElem?_map, List.length_map]
  split
  next hij =>
    subst hij
    simp [hi]
  next hij =>
    cases hj : ds[j]? with
    | none => rfl
    | some e =>
      have hne : e ≠ ds[i] := by
        rintro rfl
        exact hij ((List.getElem?_inj hi hnodup).1 (hd.trans hj.symm))
      simp [hne]

/-- The calls of a definition on line `k`. -/
def callsOn (ds : List Definition) (d : Definition) (line : List Char) (k : Nat) : List String :=
  if d.first == k then callsIn d.after
  else if ds.any (fun d' => d'.first == k) then []
  else if owner? ds k == some d then callsIn line
  else []

theorem callsOf_cons : callsOf ds d k (line :: below) = callsOn ds d line k ++ callsOf ds d (k + 1) below :=
  rfl

/-- A line without a header is read for its owner. -/
theorem callsOn_of_no_header (hnone : ∀ e ∈ ds, (e.first == k) = false) (hd : d ∈ ds) :
    callsOn ds d line k = if owner? ds k = some d then callsIn line else [] := by
  have hany : ds.any (·.first == k) = false := List.any_eq_false.2 fun e he => by simp [hnone e he]
  simp [callsOn, hnone d hd, hany]

section Lines

variable (hds : (ds.map (·.first)).Nodup)
include hds

/-- On a header line no other definition starts, so that no other has calls there. -/
theorem callsOn_of_header (he : e ∈ ds) (hk : e.first = k) (hd : d ∈ ds) :
    callsOn ds d line k = if d = e then callsIn e.after else [] := by
  have hany : ds.any (·.first == k) = true := List.any_eq_true.2 ⟨e, he, beq_iff_eq.2 hk⟩
  by_cases heq : d = e
  · simp [callsOn, heq, hk]
  · have hother : d.first ≠ k := fun hfirst =>
      heq (List.inj_on_of_nodup_map hds hd he (hfirst.trans hk.symm))
    simp [callsOn, heq, hother, hany]

/-- The step for a line finds on it the calls of each definition. -/
theorem checked_readLine :
    Checked.readLine ds (functionsOf ds calls) line k =
      .ok (functionsOf ds fun d => calls d ++ callsOn ds d line k) := by
  have hnodup : ds.Nodup := List.Nodup.of_map _ hds
  rw [Checked.readLine]
  cases hfind : ds.findIdx? (·.first == k) with
  | some i =>
    obtain ⟨hi, hk, -⟩ := List.findIdx?_eq_some_iff_getElem.1 hfind
    have hget : ds[i]? = some ds[i] := List.getElem?_eq_getElem hi
    simp only [Bounds.element_eq_ok.2 hget, bind, Except.bind, checked_addCalls hnodup hget]
    refine congrArg Except.ok (functionsOf_congr fun d hd => ?_)
    rw [callsOn_of_header hds (List.getElem_mem hi) (beq_iff_eq.1 hk) hd]
  | none =>
    have hnone := List.findIdx?_eq_none_iff.1 hfind
    obtain ⟨o, ho, howner, hget⟩ := exists_ownerIndex? ds k
    simp only [ho, bind, Except.bind]
    cases o with
    | none =>
      refine congrArg Except.ok (functionsOf_congr fun d hd => ?_)
      simp [callsOn_of_no_header hnone hd, ← howner]
    | some p =>
      simp only [Option.map_some, checked_addCalls hnodup (hget p rfl)]
      refine congrArg Except.ok (functionsOf_congr fun d hd => ?_)
      simp [callsOn_of_no_header hnone hd, ← howner, eq_comm]

theorem checked_foldlM :
    (lines.zipIdx k).foldlM (fun fs p => Checked.readLine ds fs p.1 p.2) (functionsOf ds calls) =
      .ok (functionsOf ds fun d => calls d ++ callsOf ds d k lines) := by
  induction lines generalizing k calls with
  | nil => exact congrArg Except.ok (functionsOf_congr fun d _ => (List.append_nil _).symm)
  | cons line below ih =>
    rw [List.zipIdx_cons, Outcome.foldlM_cons_eq_ok]
    refine ⟨_, checked_readLine hds, ih.trans ?_⟩
    refine congrArg Except.ok (functionsOf_congr fun d _ => ?_)
    rw [callsOf_cons, List.append_assoc]

end Lines

/-- The scan of a text comes out the same when every number is checked. -/
theorem checked_callGraph (l : Language) (source : String) :
    Checked.callGraph l source = .ok (callGraph l source) := by
  have hlines : (Text.lines source.toList).mapM (Checked.stripNoise l) = .ok (cleanLines l source) :=
    Outcome.mapM_eq_ok fun line _ => checked_stripNoise l line
  have hdefinitions : Checked.definitions l (cleanLines l source) =
      .ok (definitions l source) := checked_definitionsFrom rfl
  have hfunctions : (cleanLines l source).zipIdx.foldlM
        (fun fs p => Checked.readLine (definitions l source) fs p.1 p.2)
        (functionsOf (definitions l source) fun _ => []) =
      .ok (functionsOf (definitions l source) fun d => callsOf (definitions l source) d 0 (cleanLines l source)) :=
    checked_foldlM nodup_map_first
  rw [functionsOf, functionsOf] at hfunctions
  simp only [Checked.callGraph, hlines, hdefinitions, hfunctions, bind, Except.bind]
  rfl

/-- The scan of a text in a known language returns a call graph, and no list is read beyond its end on the
way, nor more subtracted than there is. The lines of each function are lines of the text. -/
theorem scan_within_bounds (hl : l ≠ .unknown) (source : String) :
    ∃ g, scan l source = .ok g ∧ Checked.callGraph l source = .ok g ∧
      ∀ f ∈ g.toList, 1 ≤ f.startLine ∧ f.startLine ≤ f.endLine ∧
        f.endLine ≤ (Text.lines source.toList).length := by
  have hsupported : l.isSupported = true := bne_iff_ne.2 hl
  refine ⟨callGraph l source, ?_, checked_callGraph l source, fun f hf => line_bounds_of_mem hf⟩
  rw [scan, if_pos hsupported]

/-- A header above a blank line, a block that is never closed, and a header with no block below it. -/
theorem scan_within_bounds_of_unclosed_block :
    let source := "fun a() =\n\nfun b() \x7b\n  fun c() = d()\n  e()"
    Language.kotlin ≠ .unknown ∧ (Text.lines source.toList).length = 5 ∧
      ∃ g, scan .kotlin source = .ok g ∧ Checked.callGraph .kotlin source = .ok g ∧
        g.toList = [⟨"a", 1, 1, []⟩, ⟨"b", 3, 5, ["e"]⟩, ⟨"c", 4, 4, ["d"]⟩] ∧
        ∀ f ∈ g.toList, 1 ≤ f.startLine ∧ f.startLine ≤ f.endLine ∧ f.endLine ≤ 5 := by
  intro source
  have hl : Language.kotlin ≠ .unknown := by decide
  have hlength : (Text.lines source.toList).length = 5 := by decide +kernel
  have hlist : (callGraph .kotlin source).toList =
      [⟨"a", 1, 1, []⟩, ⟨"b", 3, 5, ["e"]⟩, ⟨"c", 4, 4, ["d"]⟩] := by decide +kernel
  obtain ⟨g, hscan, hchecked, hbounds⟩ := scan_within_bounds hl source
  obtain rfl : callGraph .kotlin source = g := Except.ok.inj hscan
  rw [hlength] at hbounds
  exact ⟨hl, hlength, _, hscan, hchecked, hlist, hbounds⟩

end Scan

end Flowgraph

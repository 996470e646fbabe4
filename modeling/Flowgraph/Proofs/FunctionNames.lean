import Flowgraph.Extract
import Flowgraph.Proofs.CallGraph
import Flowgraph.Proofs.Text.Pattern

/-!
# Names of functions

No strategy of extraction finds a function whose name holds a colon.
-/

namespace Flowgraph

/-! ## Call graphs -/

theorem CallGraph.HasPlainNames.insert {g : CallGraph} {f : FunctionInfo} (hg : g.HasPlainNames)
    (hf : IsPlainName f.name) : (g.insert f).HasPlainNames := by
  intro name hname
  rw [contains_eq_isSome, get?_insert] at hname
  split at hname
  next heq => exact heq ▸ hf
  next => exact hg name (contains_eq_isSome g name ▸ hname)

theorem CallGraph.hasPlainNames_ofList {fs : List FunctionInfo} (hfs : ∀ f ∈ fs, IsPlainName f.name) :
    (ofList fs).HasPlainNames := by
  suffices hfold : ∀ g : CallGraph, g.HasPlainNames → (fs.foldl CallGraph.insert g).HasPlainNames from
    hfold .empty hasPlainNames_empty
  induction fs with
  | nil => exact fun g hg => hg
  | cons f fs ih =>
    exact fun g hg => ih (fun f' hf' => hfs f' (List.mem_cons_of_mem f hf')) (g.insert f)
      (hg.insert (hfs f List.mem_cons_self))

/-! ## Trees -/

theorem Vocabulary.isPlainName_nameOfText {text name : String} (h : nameOfText text = some name) :
    IsPlainName name := by
  rw [nameOfText] at h
  split at h
  next hname =>
    cases h
    simp only [Bool.and_eq_true, List.all_eq_true] at hname
    rw [IsPlainName, String.toList_ofList]
    intro hcolon
    exact absurd (hname.2 ':' hcolon) (by decide)
  next => cases h

namespace Walk

/-- The functions that the walk is inside of, and those it has left, have plain names. -/
structure HasPlainNames (w : Walk) : Prop where
  inside : ∀ f ∈ w.inside, IsPlainName f.name
  graph : w.graph.HasPlainNames

theorem hasPlainNames_start : start.HasPlainNames :=
  ⟨fun _ hf => absurd hf List.not_mem_nil, CallGraph.hasPlainNames_empty⟩

variable {w : Walk}

theorem HasPlainNames.enter (hw : w.HasPlainNames) {name : String} (hname : IsPlainName name)
    (t : SyntaxTree) : (w.enter name t).HasPlainNames where
  inside f hf := by
    rcases List.mem_cons.mp hf with rfl | hf
    · exact hname
    · exact hw.inside f hf
  graph := hw.graph

theorem HasPlainNames.record (hw : w.HasPlainNames) (call : String) :
    (w.record call).HasPlainNames := by
  rw [Walk.record]
  split
  next => exact hw
  next f outer hinside =>
    have hall := hw.inside
    rw [hinside, List.forall_mem_cons] at hall
    exact ⟨List.forall_mem_cons.mpr ⟨hall.1, hall.2⟩, hw.graph⟩

theorem HasPlainNames.leave (hw : w.HasPlainNames) : w.leave.HasPlainNames := by
  rw [Walk.leave]
  split
  next => exact hw
  next f outer hinside =>
    have hall := hw.inside
    rw [hinside, List.forall_mem_cons] at hall
    exact ⟨hall.2, hw.graph.insert hall.1⟩

-- A function enters with a name of the vocabulary and leaves into the graph under that name, and its
-- children are visited in between, so that both parts of the invariant are needed at once.
mutual

theorem HasPlainNames.visit (v : Vocabulary) {w : Walk} (hw : w.HasPlainNames) :
    (t : SyntaxTree) → (visit v w t).HasPlainNames
  | .node kind field text startRow endRow children => by
    rw [Walk.visit]
    split
    next name hname =>
      obtain ⟨_, -, hname⟩ := Option.bind_eq_some_iff.mp hname
      have hentered := hw.enter (Vocabulary.isPlainName_nameOfText hname)
        (.node kind field text startRow endRow children)
      exact (HasPlainNames.visitAll v hentered children).leave
    next =>
      split
      next call _ => exact HasPlainNames.visitAll v (hw.record call) children
      next => exact HasPlainNames.visitAll v hw children

theorem HasPlainNames.visitAll (v : Vocabulary) {w : Walk} (hw : w.HasPlainNames) :
    (ts : List SyntaxTree) → (visitAll v w ts).HasPlainNames
  | [] => by
    rw [Walk.visitAll]
    exact hw
  | t :: ts => by
    rw [Walk.visitAll]
    exact HasPlainNames.visitAll v (HasPlainNames.visit v hw t) ts

end

end Walk

theorem SyntaxTree.hasPlainNames_callGraph (v : Vocabulary) (t : SyntaxTree) :
    (t.callGraph v).HasPlainNames :=
  (Walk.HasPlainNames.visit v Walk.hasPlainNames_start t).graph

/-! ## Headers -/

namespace Scan

open Pattern

theorem spans_plainName : plainName.Spans (· ≠ ':') := by
  constructor
  · rintro c hc rfl
    exact absurd hc (by decide)
  · rintro c hc rfl
    exact absurd hc (by decide)

theorem spans_dollarName : dollarName.Spans (· ≠ ':') := by
  constructor
  · rintro c hc rfl
    exact absurd hc (by decide)
  · rintro c hc rfl
    exact absurd hc (by decide)

theorem spans_rubyName : (Pattern.seq plainName (Pattern.optional (oneOf "?!="))).Spans (· ≠ ':') := by
  refine ⟨spans_plainName, ?_, trivial⟩
  rintro c hc rfl
  exact absurd hc (by decide)

/-- The name in a header of any language holds no colon. -/
theorem capturesOnly_headers (l : Language) : ∀ p ∈ headers l, p.CapturesOnly (· ≠ ':') := by
  -- Names hold no captures of their own, so that only what they span counts.
  have hplain : plainName.CapturesOnly (· ≠ ':') := ⟨trivial, trivial⟩
  have hdollar : dollarName.CapturesOnly (· ≠ ':') := ⟨trivial, trivial⟩
  cases l with
  | rust =>
    simp [-ne_eq, headers, rustHeader, named, optionalWord, between, spans_plainName, hplain]
  | python => simp [-ne_eq, headers, pythonHeader, named, optionalWord, spans_plainName, hplain]
  | javaScript | typeScript | tsx =>
    simp [-ne_eq, headers, javaScriptFunctionHeader, javaScriptValueHeader, named, optionalWord,
      between, optionalAnnotation, spans_dollarName, hdollar]
  | go => simp [-ne_eq, headers, goHeader, named, between, spans_plainName, hplain]
  | kotlin => simp [-ne_eq, headers, kotlinHeader, named, between, spans_plainName, hplain]
  | swift => simp [-ne_eq, headers, swiftHeader, named, spans_plainName, hplain]
  | php => simp [-ne_eq, headers, phpHeader, named, spans_plainName, hplain]
  | ruby => simp [-ne_eq, headers, rubyHeader, named, spans_rubyName, hplain]
  | unknown => simp [headers]

theorem isPlainName_header {l : Language} {line : List Char} {h : Header}
    (hh : header? l line = some h) : IsPlainName h.name := by
  obtain ⟨p, hp, hfound⟩ := List.exists_of_findSome?_eq_some hh
  obtain ⟨m, hm, rfl⟩ := Option.map_eq_some_iff.mp hfound
  rw [IsPlainName, String.toList_ofList]
  exact fun hcolon => mem_group_of_find? (capturesOnly_headers l p hp) hm hcolon rfl

theorem isPlainName_of_mem_definitionsFrom {l : Language} {k : Nat} {lines : List (List Char)}
    {d : Definition} (hd : d ∈ definitionsFrom l k lines) : IsPlainName d.name := by
  induction lines generalizing k with
  | nil => cases hd
  | cons line below ih =>
    rw [definitionsFrom, List.mem_append, Option.mem_toList] at hd
    rcases hd with hd | hd
    · obtain ⟨h, hh, rfl⟩ := Option.map_eq_some_iff.mp hd
      exact isPlainName_header hh
    · exact ih hd

theorem hasPlainNames_callGraph (l : Language) (source : String) :
    (callGraph l source).HasPlainNames := by
  refine CallGraph.hasPlainNames_ofList fun f hf => ?_
  obtain ⟨d, hd, rfl⟩ := List.mem_map.mp hf
  exact isPlainName_of_mem_definitionsFrom hd

end Scan

/-! ## Extraction -/

theorem hasPlainNames_scan {l : Language} {source : String} {g : CallGraph}
    (hg : scan l source = .ok g) : g.HasPlainNames := by
  rw [scan] at hg
  split at hg
  · cases hg
    exact Scan.hasPlainNames_callGraph l source
  · cases hg

variable [Parsers]

theorem hasPlainNames_tryExtract {l : Language} {source : String} {g : CallGraph}
    (hg : tryExtract source l = .ok g) : g.HasPlainNames := by
  cases l with
  | python | javaScript | typeScript | tsx | rust =>
    cases hg
    exact SyntaxTree.hasPlainNames_callGraph _ _
  | go | kotlin | swift | php | ruby | unknown => exact hasPlainNames_scan hg

theorem hasPlainNames_extract (source path : String) : (extract source path).HasPlainNames := by
  rw [extract]
  split
  next hg => exact hasPlainNames_tryExtract hg
  next => exact CallGraph.hasPlainNames_empty

end Flowgraph

import Flowgraph.Proofs.CallGraph
import Flowgraph.Proofs.Syntax.Address
import Flowgraph.Syntax.Vocabularies

/-!
# What a walk finds

The walk keeps a stack of the functions it is inside of, and stores each when it leaves it. What it finds
is told here by the tree alone: which nodes declare functions, which of two of one name counts, and which
calls belong to whom.
-/

namespace Flowgraph

open SyntaxTree (Address EndsBefore Lists Below)

namespace Vocabulary

/-! ## Parts of a tree -/

mutual

/-- The calls that a tree makes outside of the functions declared in it. -/
def outerCalls (v : Vocabulary) : SyntaxTree → List String
  | .node kind field text startRow endRow children =>
    let t := .node kind field text startRow endRow children
    match v.declared t with
    | some _ => []
    | none => (v.called t).toList ++ outerCallsAll v children

def outerCallsAll (v : Vocabulary) : List SyntaxTree → List String
  | [] => []
  | t :: ts => outerCalls v t ++ outerCallsAll v ts

end

/-- The function declared by a node. -/
def functionOf? (v : Vocabulary) (t : SyntaxTree) : Option FunctionInfo :=
  (v.declared t).map fun name => ⟨name, t.startRow + 1, t.endRow + 1, v.outerCallsAll t.children⟩

mutual

/-- The functions declared in a tree, by the ends of their nodes. -/
def functions (v : Vocabulary) : SyntaxTree → List FunctionInfo
  | .node kind field text startRow endRow children =>
    functionsAll v children ++ (v.functionOf? (.node kind field text startRow endRow children)).toList

def functionsAll (v : Vocabulary) : List SyntaxTree → List FunctionInfo
  | [] => []
  | t :: ts => functions v t ++ functionsAll v ts

end

end Vocabulary

/-! ## The walk -/

namespace Walk

variable {w : Walk} {calls calls' : List String} {fs fs' : List FunctionInfo}

/-- The walk with further calls of the innermost function, and further functions that it has left. -/
def gain (w : Walk) (calls : List String) (fs : List FunctionInfo) : Walk where
  inside :=
    match w.inside with
    | [] => []
    | f :: outer => { f with calls := f.calls ++ calls } :: outer
  graph := fs.foldl .insert w.graph

theorem gain_nil (w : Walk) : w.gain [] [] = w := by
  obtain ⟨_ | ⟨f, outer⟩, graph⟩ := w <;> simp [gain]

theorem gain_gain : (w.gain calls fs).gain calls' fs' = w.gain (calls ++ calls') (fs ++ fs') := by
  obtain ⟨_ | ⟨f, outer⟩, graph⟩ := w <;> simp [gain]

theorem record_eq_gain (w : Walk) (call : String) : w.record call = w.gain [call] [] := by
  obtain ⟨_ | ⟨f, outer⟩, graph⟩ := w <;> simp [record, gain]

/-- What is gained inside a function goes to it, and it is left behind what it holds. -/
theorem leave_gain_enter (w : Walk) (name : String) (t : SyntaxTree) :
    ((w.enter name t).gain calls fs).leave =
      w.gain [] (fs ++ [⟨name, t.startRow + 1, t.endRow + 1, calls⟩]) := by
  obtain ⟨_ | ⟨f, outer⟩, graph⟩ := w <;> simp [enter, gain, leave]

mutual

theorem visit_eq_gain (v : Vocabulary) (w : Walk) :
    (t : SyntaxTree) → visit v w t = w.gain (v.outerCalls t) (v.functions t)
  | .node kind field text startRow endRow children => by
    rw [visit, Vocabulary.outerCalls, Vocabulary.functions, Vocabulary.functionOf?]
    cases hdeclared : v.declared (.node kind field text startRow endRow children) with
    | some name =>
      simp only [visitAll_eq_gain v _ children, leave_gain_enter]
      rfl
    | none =>
      cases hcalled : v.called (.node kind field text startRow endRow children) with
      | some call =>
        simp only [visitAll_eq_gain v _ children, record_eq_gain, gain_gain]
        simp
      | none =>
        simp only [visitAll_eq_gain v _ children]
        simp

theorem visitAll_eq_gain (v : Vocabulary) (w : Walk) :
    (ts : List SyntaxTree) → visitAll v w ts = w.gain (v.outerCallsAll ts) (v.functionsAll ts)
  | [] => (gain_nil w).symm
  | t :: ts => by
    rw [visitAll, visit_eq_gain v w t, visitAll_eq_gain v _ ts, gain_gain]
    rfl

end

end Walk

/-- The walk stores the functions of a tree one after another. -/
theorem SyntaxTree.callGraph_eq_ofList (v : Vocabulary) (t : SyntaxTree) :
    t.callGraph v = .ofList (v.functions t) := by
  rw [callGraph, Walk.visit_eq_gain]
  rfl

/-! ## Declarations and calls by address -/

namespace Vocabulary

variable {v : Vocabulary} {t n : SyntaxTree} {p q : Address} {name call : String} {f : FunctionInfo}

/-- The name of the function declared by the node at an address. -/
def declaredAt (v : Vocabulary) (t : SyntaxTree) (p : Address) : Option String := (t.at? p).bind v.declared

/-- The call made by the node at an address. -/
def calledAt (v : Vocabulary) (t : SyntaxTree) (p : Address) : Option String := (t.at? p).bind v.called

theorem declaredAt_append (hn : t.at? p = some n) : v.declaredAt t (p ++ q) = v.declaredAt n q := by
  rw [declaredAt, SyntaxTree.at?_append, hn]
  rfl

theorem calledAt_append (hn : t.at? p = some n) : v.calledAt t (p ++ q) = v.calledAt n q := by
  rw [calledAt, SyntaxTree.at?_append, hn]
  rfl

/-- The node at `q` makes a call, and neither it nor a node above it declares a function. -/
def CallsOutside (v : Vocabulary) (t : SyntaxTree) (q : Address) (call : String) : Prop :=
  (∀ r, r <+: q → v.declaredAt t r = none) ∧ v.calledAt t q = some call

/-- Below a node, a call is outside of all functions if it is below the node's child. -/
theorem below_callsOutside_iff : Below v.CallsOutside t.children q call ↔
    q ≠ [] ∧ (∀ r, r <+: q → r ≠ [] → v.declaredAt t r = none) ∧ v.calledAt t q = some call := by
  cases q with
  | nil => simp [Below]
  | cons i q =>
    have hchild {s : SyntaxTree} (hs : t.children[i]? = some s) : t.at? [i] = some s := by
      rw [SyntaxTree.at?, hs]
      rfl
    constructor
    · rintro ⟨s, hs, hnone, hcall⟩
      refine ⟨List.cons_ne_nil i q, fun r hr hne => ?_, (calledAt_append (hchild hs)).trans hcall⟩
      obtain ⟨j, r, rfl⟩ := List.exists_cons_of_ne_nil hne
      obtain ⟨rfl, hinside⟩ := List.cons_prefix_cons.mp hr
      exact (declaredAt_append (hchild hs)).trans (hnone r hinside)
    · rintro ⟨-, hnone, hcall⟩
      cases hs : t.children[i]? with
      | none => simp [calledAt, SyntaxTree.at?, hs] at hcall
      | some s =>
        refine ⟨s, hs, fun r hr => ?_, (calledAt_append (hchild hs)).symm.trans hcall⟩
        rw [← declaredAt_append (hchild hs)]
        exact hnone (i :: r) (List.cons_prefix_cons.mpr ⟨rfl, hr⟩) (List.cons_ne_nil i r)

theorem callsOutside_iff : v.CallsOutside t q call ↔ v.declared t = none ∧
    (q = [] ∧ v.called t = some call ∨ Below v.CallsOutside t.children q call) := by
  have hroot : (∀ r, r <+: q → v.declaredAt t r = none) ↔
      v.declared t = none ∧ ∀ r, r <+: q → r ≠ [] → v.declaredAt t r = none := by
    constructor
    · exact fun hnone => ⟨hnone [] List.nil_prefix, fun r hr _ => hnone r hr⟩
    · rintro ⟨hdeclared, hnone⟩ r hr
      by_cases hr' : r = []
      · exact hr' ▸ hdeclared
      · exact hnone r hr hr'
  rw [CallsOutside, hroot, below_callsOutside_iff, and_assoc]
  refine and_congr_right fun _ => ?_
  by_cases hq : q = []
  · subst hq
    simp [calledAt, SyntaxTree.at?]
  · simp [hq]

mutual

/-- The calls outside of functions are listed by the starts of their nodes. -/
theorem lists_outerCalls (v : Vocabulary) :
    (t : SyntaxTree) → Lists (· < ·) (v.CallsOutside t) (v.outerCalls t)
  | .node kind field text startRow endRow children => by
    have hchildren := lists_outerCallsAll v children
    rw [outerCalls]
    cases hdeclared : v.declared (.node kind field text startRow endRow children) with
    | some name =>
      refine .nil fun q call hcall => ?_
      rw [callsOutside_iff, hdeclared] at hcall
      exact absurd hcall.1 (Option.some_ne_none name)
    | none =>
      have hsame (q : Address) (call : String) :
          v.CallsOutside (.node kind field text startRow endRow children) q call ↔ q = [] ∧
            v.called (.node kind field text startRow endRow children) = some call ∨
              Below v.CallsOutside children q call := by
        rw [callsOutside_iff, and_iff_right hdeclared]
        rfl
      cases hcalled : v.called (.node kind field text startRow endRow children) with
      | some call =>
        refine (hchildren.cons_root (a := call) List.nil_lt_cons).congr fun q call' => ?_
        rw [hsame, hcalled, Option.some.injEq, @eq_comm _ call]
      | none =>
        refine hchildren.congr fun q call' => ?_
        rw [hsame, hcalled]
        simp

theorem lists_outerCallsAll (v : Vocabulary) :
    (ts : List SyntaxTree) → Lists (· < ·) (Below v.CallsOutside ts) (v.outerCallsAll ts)
  | [] => .below_nil
  | t :: ts => .below_cons SyntaxTree.isWalkOrder_lt (lists_outerCalls v t) (lists_outerCallsAll v ts)

end

/-- The node at an address declares a function, which is the given one. -/
def FunctionAt (v : Vocabulary) (t : SyntaxTree) (p : Address) (f : FunctionInfo) : Prop :=
  (t.at? p).bind v.functionOf? = some f

theorem functionAt_iff : v.FunctionAt t p f ↔
    p = [] ∧ v.functionOf? t = some f ∨ Below v.FunctionAt t.children p f := by
  cases p with
  | nil => simp [FunctionAt, Below, SyntaxTree.at?]
  | cons i p =>
    rw [FunctionAt, SyntaxTree.at?, Option.bind_assoc, Option.bind_eq_some_iff]
    simp [Below, FunctionAt]

mutual

/-- The functions are listed by the ends of their nodes. -/
theorem lists_functions (v : Vocabulary) :
    (t : SyntaxTree) → Lists EndsBefore (v.FunctionAt t) (v.functions t)
  | .node kind field text startRow endRow children => by
    have hchildren := lists_functionsAll v children
    rw [functions]
    cases hfunction : v.functionOf? (.node kind field text startRow endRow children) with
    | some f =>
      refine (hchildren.append_root (a := f) SyntaxTree.endsBefore_root).congr fun p f' => ?_
      rw [functionAt_iff, hfunction, Option.some.injEq, @eq_comm _ f]
      rfl
    | none =>
      rw [Option.toList_none, List.append_nil]
      refine hchildren.congr fun p f' => ?_
      rw [functionAt_iff, hfunction]
      simp [SyntaxTree.children]

theorem lists_functionsAll (v : Vocabulary) :
    (ts : List SyntaxTree) → Lists EndsBefore (Below v.FunctionAt ts) (v.functionsAll ts)
  | [] => .below_nil
  | t :: ts =>
    .below_cons SyntaxTree.isWalkOrder_endsBefore (lists_functions v t) (lists_functionsAll v ts)

end

/-! ## Owners -/

/-- Of the nodes above the one at `q`, that at `p` is the nearest that declares a function. -/
structure Owns (v : Vocabulary) (t : SyntaxTree) (p q : Address) : Prop where
  isPrefix : p <+: q
  ne : p ≠ q
  declares : (v.declaredAt t p).isSome
  nearest : ∀ r, p <+: r → r <+: q → r ≠ p → r ≠ q → v.declaredAt t r = none

/-- Of two functions around a node one is inside the other, and only the inner one is the nearest. -/
theorem Owns.eq {p' : Address} (hp : v.Owns t p q) (hp' : v.Owns t p' q) : p = p' := by
  have hinner {p p' : Address} (hp : v.Owns t p q) (hp' : v.Owns t p' q) (hinside : p <+: p') :
      p = p' := by
    refine Classical.byContradiction fun hne => ?_
    have hsome := hp'.declares
    rw [hp.nearest p' hinside hp'.isPrefix (Ne.symm hne) hp'.ne] at hsome
    cases hsome
  rcases List.prefix_or_prefix_of_prefix hp.isPrefix hp'.isPrefix with hinside | hinside
  · exact hinner hp hp' hinside
  · exact (hinner hp' hp hinside).symm

/-- From a node that declares a function, the calls that the function owns are those that its children
make outside of all functions. -/
theorem owns_and_calledAt_iff (hn : t.at? p = some n) (hdeclared : (v.declared n).isSome) :
    v.Owns t p q ∧ v.declaredAt t q = none ∧ v.calledAt t q = some call ↔
      ∃ r, q = p ++ r ∧ Below v.CallsOutside n.children r call := by
  simp only [below_callsOutside_iff]
  constructor
  · rintro ⟨⟨⟨r, rfl⟩, hne, -, hnearest⟩, hself, hcall⟩
    rw [declaredAt_append hn] at hself
    rw [calledAt_append hn] at hcall
    refine ⟨r, rfl, fun hr => hne (by rw [hr, List.append_nil]), fun s hs hne' => ?_, hcall⟩
    by_cases hlast : s = r
    · rw [hlast, hself]
    · rw [← declaredAt_append hn]
      exact hnearest (p ++ s) (List.prefix_append p s) ((List.prefix_append_right_inj p).mpr hs)
        (by simpa using hne') (by simpa using hlast)
  · rintro ⟨r, rfl, hne, hnone, hcall⟩
    rw [declaredAt_append hn, calledAt_append hn]
    refine ⟨⟨List.prefix_append p r, by simpa using hne, ?_, ?_⟩, hnone r List.prefix_rfl hne, hcall⟩
    · rw [declaredAt, hn]
      exact hdeclared
    · rintro s ⟨s, rfl⟩ hs hne' -
      rw [declaredAt_append hn]
      exact hnone s ((List.prefix_append_right_inj p).mp hs) (by simpa using hne')

/-! ## The languages -/

/-- The vocabularies of the languages that are read by a grammar. -/
def vocabularies : List Vocabulary := [Python.vocabulary, Rust.vocabulary, Ecmascript.vocabulary]

/-- In these, the kinds of nodes that declare functions are none of those that make calls. -/
theorem called_eq_none_of_declared (hv : v ∈ vocabularies) (hdeclared : (v.declared n).isSome) :
    v.called n = none := by
  have hname : (v.nameOf n).isSome := Option.isSome_of_isSome_bind hdeclared
  have hcallee : v.calleeOf n = none := by
    simp only [vocabularies, List.mem_cons, List.not_mem_nil, or_false] at hv
    obtain rfl | rfl | rfl := hv
    · simp only [Python.vocabulary] at hname ⊢
      split at hname <;> simp_all
    · simp only [Rust.vocabulary] at hname ⊢
      split at hname <;> simp_all
    · simp only [Ecmascript.vocabulary, Ecmascript.functionName, Ecmascript.calleeOf] at hname ⊢
      split at hname <;> simp_all
  rw [called, hcallee, Option.bind_none]

theorem declaredAt_eq_none_of_calledAt (hv : v ∈ vocabularies) (hcall : (v.calledAt t q).isSome) :
    v.declaredAt t q = none := by
  unfold calledAt at hcall
  unfold declaredAt
  cases hn : t.at? q with
  | none => rfl
  | some n =>
    rw [hn, Option.bind_some] at hcall
    rw [Option.bind_some, ← Option.not_isSome_iff_eq_none]
    intro hdeclared
    rw [called_eq_none_of_declared hv hdeclared] at hcall
    cases hcall

/-! ## What the call graph holds -/

/-- The node at `p` declares the function, with its lines and with the calls that it owns, in the order in
which their nodes start and each once. A node that declares a function makes no call itself. -/
structure Describes (v : Vocabulary) (t : SyntaxTree) (p : Address) (f : FunctionInfo) : Prop where
  exists_node : ∃ n, t.at? p = some n ∧ v.declared n = some f.name ∧
    f.startLine = n.startRow + 1 ∧ f.endLine = n.endRow + 1
  lists_calls : Lists (· < ·)
    (fun q call => v.Owns t p q ∧ v.declaredAt t q = none ∧ v.calledAt t q = some call) f.calls

theorem FunctionAt.describes (hf : v.FunctionAt t p f) : v.Describes t p f := by
  obtain ⟨n, hn, hfunction⟩ := Option.bind_eq_some_iff.mp hf
  obtain ⟨name, hname, rfl⟩ := Option.map_eq_some_iff.mp hfunction
  have hdeclared : (v.declared n).isSome := by rw [hname, Option.isSome_some]
  exact ⟨⟨n, hn, hname, rfl, rfl⟩,
    (lists_outerCallsAll v n.children).append_left fun q call => owns_and_calledAt_iff hn hdeclared⟩

theorem exists_functionAt_iff :
    (∃ f, v.FunctionAt t p f ∧ f.name = name) ↔ v.declaredAt t p = some name := by
  simp only [FunctionAt, declaredAt]
  cases t.at? p with
  | none => simp
  | some n =>
    simp only [Option.bind_some, functionOf?, Option.map_eq_some_iff]
    constructor
    · rintro ⟨f, ⟨declared, hdeclared, rfl⟩, rfl⟩
      exact hdeclared
    · exact fun hdeclared => ⟨_, ⟨name, hdeclared, rfl⟩, rfl⟩

/-- The node at `p` is, of those that declare a function of the name, the one that ends last. -/
def DeclaresLast (v : Vocabulary) (t : SyntaxTree) (p : Address) (name : String) : Prop :=
  v.declaredAt t p = some name ∧ ∀ q, v.declaredAt t q = some name → q = p ∨ EndsBefore q p

/-- The call graph of a tree has the functions that its nodes declare, each as the last node of its name
declares it, and with those calls below this node for which it is the nearest function. No call has two
owners. In the languages that are read by a grammar, no node that makes a call declares a function. -/
theorem describes_of_callGraph (v : Vocabulary) (t : SyntaxTree) :
    (∀ name, (t.callGraph v).contains name = true ↔ ∃ p, v.declaredAt t p = some name) ∧
      (∀ name f, (t.callGraph v).get? name = some f →
        ∃ p, v.DeclaresLast t p name ∧ v.Describes t p f) ∧
      (∀ p p' q, v.Owns t p q → v.Owns t p' q → p = p') ∧
      (v ∈ vocabularies → ∀ q, (v.calledAt t q).isSome → v.declaredAt t q = none) := by
  obtain ⟨table, hsorted, hmem, hfunctions⟩ := lists_functions v t
  rw [SyntaxTree.callGraph_eq_ofList, ← hfunctions]
  refine ⟨fun name => ?_, fun name f hf => ?_, fun p p' q => Owns.eq,
    fun hv q => declaredAt_eq_none_of_calledAt hv⟩
  · rw [CallGraph.ofList, CallGraph.contains_foldl_insert, CallGraph.not_contains_empty]
    simp only [← exists_functionAt_iff, ← hmem, List.mem_map, Prod.exists, Bool.false_eq_true, or_false]
    constructor
    · rintro ⟨f, ⟨p, f, hentry, rfl⟩, hname⟩
      exact ⟨p, f, hentry, hname⟩
    · rintro ⟨p, f, hentry, hname⟩
      exact ⟨f, ⟨p, f, hentry, rfl⟩, hname⟩
  · rcases CallGraph.get?_foldl_insert hf with ⟨before, after, hsplit, hname, hafter⟩ | ⟨-, hempty⟩
    · -- The entry of the function in the table stands between those that end earlier and later.
      obtain ⟨earlier, rest, rfl, rfl, hrest⟩ := List.map_eq_append_iff.mp hsplit
      obtain ⟨⟨p, f⟩, later, rfl, rfl, rfl⟩ := List.map_eq_cons_iff.mp hrest
      have hat : v.FunctionAt t p f := (hmem p f).mp (by simp)
      refine ⟨p, ⟨exists_functionAt_iff.mp ⟨f, hat, hname⟩, fun q hq => ?_⟩, hat.describes⟩
      obtain ⟨f', hat', hname'⟩ := exists_functionAt_iff.mpr hq
      rcases List.mem_append.mp ((hmem q f').mpr hat') with hbefore | hnot
      · exact .inr ((List.pairwise_append.mp hsorted).2.2 _ hbefore _ List.mem_cons_self)
      · rcases List.mem_cons.mp hnot with hsame | hlater
        · exact .inl (Prod.mk.inj hsame).1
        · exact absurd hname' (hafter f' (List.mem_map_of_mem (f := Prod.snd) hlater))
    · rw [CallGraph.get?_empty] at hempty
      cases hempty

end Vocabulary

end Flowgraph

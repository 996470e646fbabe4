import Flowgraph.Proofs.Call
import Flowgraph.Proofs.Graph.Nodes

/-!
# Adding edges

What a graph links after edges derived from calls have been added one after another, and the calls of a
file for which an edge is added.
-/

namespace Flowgraph

namespace Graph

/-- `h` is `g` with an edge derived from a call for every pair of ids that satisfies `P`, where there
was none. -/
structure Extends (g h : Graph) (P : String → String → Prop) : Prop where
  nodes_eq : h.nodes = g.nodes
  edges_prefix : g.edges <+: h.edges
  hasEdge_iff : ∀ source target,
    h.hasEdge source target = true ↔ g.hasEdge source target = true ∨ P source target
  unnamed : ∀ e ∈ h.edges, e ∈ g.edges ∨ e = .unresolved e.source e.target
  simple : (g.edges.map fun e => (e.source, e.target)).Nodup →
    (h.edges.map fun e => (e.source, e.target)).Nodup

/-- The edges are added to a well-formed graph, and between nodes of it. -/
structure AddsEdges (g h : Graph) (P : String → String → Prop) : Prop extends Extends g h P where
  wellFormed : h.WellFormed

variable {g h k : Graph} {P Q : String → String → Prop}

namespace Extends

theorem refl (g : Graph) : Extends g g fun _ _ => False where
  nodes_eq := rfl
  edges_prefix := List.prefix_refl _
  hasEdge_iff _ _ := (or_iff_left id).symm
  unnamed _ he := .inl he
  simple := id

theorem trans (hgh : Extends g h P) (hhk : Extends h k Q) :
    Extends g k fun source target => P source target ∨ Q source target where
  nodes_eq := hhk.nodes_eq.trans hgh.nodes_eq
  edges_prefix := hgh.edges_prefix.trans hhk.edges_prefix
  hasEdge_iff source target := by rw [hhk.hasEdge_iff, hgh.hasEdge_iff, or_assoc]
  unnamed e he := by
    rcases hhk.unnamed e he with he | he
    · exact hgh.unnamed e he
    · exact .inr he
  simple hg := hhk.simple (hgh.simple hg)

theorem congr (hgh : Extends g h P)
    (hPQ : ∀ source target, P source target ↔ Q source target) : Extends g h Q where
  __ := hgh
  hasEdge_iff source target := by rw [hgh.hasEdge_iff, hPQ]

/-- Adding edges for one element of a list after another adds the edges for all of them. What an
element adds may depend on the nodes of the graph, which stay as they are. -/
theorem foldl {σ α : Type} {f : σ → Graph} {step : σ → α → σ}
    {P : α → String → String → Prop} {l : List α} {s : σ}
    (hstep : ∀ a ∈ l, ∀ s' : σ, (f s').nodes = (f s).nodes →
      Extends (f s') (f (step s' a)) (P a)) :
    Extends (f s) (f (l.foldl step s)) fun source target => ∃ a ∈ l, P a source target := by
  -- The nodes stay as they are, so that every step is one from a state with the nodes of the first.
  induction l generalizing s with
  | nil => exact (refl (f s)).congr fun _ _ => by simp
  | cons a l ih =>
    have hfirst := hstep a List.mem_cons_self s rfl
    have hrest := ih fun b hb s' hnodes =>
      hstep b (List.mem_cons_of_mem _ hb) s' (hnodes.trans hfirst.nodes_eq)
    exact (hfirst.trans hrest).congr fun _ _ => by simp

theorem addEdge (g : Graph) (source target : String) :
    Extends g (g.addEdge (.unresolved source target)) fun s t => s = source ∧ t = target where
  nodes_eq := nodes_addEdge g _
  edges_prefix := prefix_edges_addEdge g _
  hasEdge_iff s t := by
    rw [hasEdge_addEdge, Edge.unresolved, eq_comm (a := source), eq_comm (a := target)]
  unnamed e he := (mem_edges_addEdge he).imp_right fun heq => by rw [heq]; rfl
  simple hg := simple_addEdge hg

/-- Edges between different nodes keep a graph well formed. -/
theorem addsEdges (hgh : Extends g h P) (hg : g.WellFormed)
    (hends : ∀ source target, P source target →
      g.containsNode source = true ∧ g.containsNode target = true ∧ source ≠ target) :
    AddsEdges g h P where
  __ := hgh
  wellFormed := hg.of_hasEdge hgh.nodes_eq (hgh.simple hg.simple) fun source target hedge =>
    ((hgh.hasEdge_iff source target).mp hedge).imp_right (hends source target)

end Extends

namespace AddsEdges

theorem refl (hg : g.WellFormed) : AddsEdges g g fun _ _ => False := ⟨.refl g, hg⟩

theorem trans (hgh : AddsEdges g h P) (hhk : AddsEdges h k Q) :
    AddsEdges g k fun source target => P source target ∨ Q source target :=
  ⟨hgh.toExtends.trans hhk.toExtends, hhk.wellFormed⟩

theorem congr (hgh : AddsEdges g h P)
    (hPQ : ∀ source target, P source target ↔ Q source target) : AddsEdges g h Q :=
  ⟨hgh.toExtends.congr hPQ, hgh.wellFormed⟩

/-- Every step finds a well-formed graph with the nodes of the first one. -/
theorem foldl {α : Type} {step : Graph → α → Graph} {P : α → String → String → Prop} {l : List α}
    (hg : g.WellFormed)
    (hstep : ∀ a ∈ l, ∀ h : Graph, h.nodes = g.nodes → h.WellFormed → AddsEdges h (step h a) (P a)) :
    AddsEdges g (l.foldl step g) fun source target => ∃ a ∈ l, P a source target := by
  induction l generalizing g with
  | nil => exact (refl hg).congr fun _ _ => by simp
  | cons a l ih =>
    have hfirst := hstep a List.mem_cons_self g rfl hg
    have hrest := ih hfirst.wellFormed fun b hb h hnodes =>
      hstep b (List.mem_cons_of_mem _ hb) h (hnodes.trans hfirst.nodes_eq)
    exact (hfirst.trans hrest).congr fun _ _ => by simp

theorem addEdge (hg : g.WellFormed) {source target : String} (hsource : g.containsNode source = true)
    (htarget : g.containsNode target = true) (hne : source ≠ target) :
    AddsEdges g (g.addEdge (.unresolved source target)) fun s t => s = source ∧ t = target := by
  refine (Extends.addEdge g source target).addsEdges hg fun s t => ?_
  rintro ⟨rfl, rfl⟩
  exact ⟨hsource, htarget, hne⟩

/-- An edge from one function that has a node to another. -/
theorem addEdge_of_shows (hg : g.WellFormed) {file function file' function' : String}
    (hcaller : g.Shows file function) (hcallee : g.Shows file' function')
    (hne : ¬ (file = file' ∧ function = function')) :
    AddsEdges g (g.addEdge (.unresolved (nodeId file function) (nodeId file' function')))
      fun s t => s = nodeId file function ∧ t = nodeId file' function' := by
  have hplain := hg.plain_of_shows hcaller
  have hplain' := hg.plain_of_shows hcallee
  refine addEdge hg ((hg.containsNode_nodeId hplain).mpr hcaller)
    ((hg.containsNode_nodeId hplain').mpr hcallee) ?_
  rwa [ne_eq, nodeId_inj hplain hplain']

/-- Where all edges of `g` are derived from calls, all of `h` are. -/
theorem unnamed_of_unnamed (hgh : AddsEdges g h P)
    (hg : ∀ e ∈ g.edges, e = .unresolved e.source e.target) :
    ∀ e ∈ h.edges, e = .unresolved e.source e.target := fun e he =>
  (hgh.unnamed e he).elim (hg e) id

end AddsEdges

/-! ## Calls within a file -/

theorem fileCallee?_eq_some {calls : CallGraph} {caller call callee : String} :
    fileCallee? calls caller call = some callee ↔
      callee = call ∧ '.' ∉ call.toList ∧ call ≠ caller ∧ calls.contains call = true := by
  rw [fileCallee?]
  split
  next name hsplit =>
    obtain ⟨rfl, hdot⟩ := Call.split_eq_none_iff.mp hsplit
    simp only [Option.ite_none_right_eq_some, Bool.and_eq_true, bne_iff_ne, ne_eq, Option.some.injEq]
    constructor
    · rintro ⟨⟨hne, hcontains⟩, rfl⟩
      exact ⟨rfl, hdot, hne, hcontains⟩
    · rintro ⟨rfl, -, hne, hcontains⟩
      exact ⟨⟨hne, hcontains⟩, rfl⟩
  next hsplit =>
    constructor
    · intro h
      cases h
    · rintro ⟨-, hdot, -, -⟩
      exact absurd (Call.split_eq_none_iff.mpr ⟨rfl, hdot⟩) (hsplit call)

theorem links_iff_fileCallee? {calls : CallGraph} {caller callee : String} :
    calls.Links caller callee ↔
      ∃ f, calls.get? caller = some f ∧
        ∃ call ∈ f.calls, fileCallee? calls caller call = some callee := by
  simp only [fileCallee?_eq_some, CallGraph.Links]
  constructor
  · rintro ⟨⟨f, hf, hcall⟩, hdot, hne, hcontains⟩
    exact ⟨f, hf, callee, hcall, rfl, hdot, hne, hcontains⟩
  · rintro ⟨f, hf, call, hcall, rfl, hdot, hne, hcontains⟩
    exact ⟨⟨f, hf, hcall⟩, hdot, hne, hcontains⟩

/-- The edge added for a call of a function of a file, if both have a node. -/
theorem Extends.addCall (g : Graph) (path : String) (calls : CallGraph) (caller call : String) :
    Extends g (addCall path calls caller g call) fun source target =>
      ∃ callee, fileCallee? calls caller call = some callee ∧
        g.functionNodeId? path caller = some source ∧ g.functionNodeId? path callee = some target := by
  unfold Graph.addCall
  cases fileCallee? calls caller call with
  | none => exact (Extends.refl g).congr fun _ _ => by simp
  | some callee =>
    simp only [Option.some.injEq, exists_eq_left']
    cases g.functionNodeId? path caller with
    | none => exact (Extends.refl g).congr fun _ _ => by simp
    | some source =>
      cases g.functionNodeId? path callee with
      | none => exact (Extends.refl g).congr fun _ _ => by simp
      | some target => exact (Extends.addEdge g source target).congr fun _ _ => by simp [eq_comm]

end Graph

end Flowgraph

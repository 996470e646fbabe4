import Flowgraph.Graph.Json
import Flowgraph.Proofs.Json.RoundTrip

/-!
# Graphs from their JSON form

A graph is read back from the JSON it is written as, with its optional fields absent or present, as
long as its lines are numbers of 64 bits.
-/

namespace Flowgraph

namespace Json

/-! ## Records and lists -/

theorem isPlain_record {entries : List (String × Json)} (h : ∀ e ∈ entries, e.2.IsPlain) :
    (record entries).IsPlain := by
  refine .object _ (fun e he => ?_) fun e he => ?_
  · obtain ⟨entry, -, rfl⟩ := List.mem_map.mp he
    rfl
  · obtain ⟨entry, hentry, rfl⟩ := List.mem_map.mp he
    exact h entry hentry

theorem isPlain_ofString (s : String) : (ofString s).IsPlain := .text s

theorem isPlain_array_map {α : Type} {items : List α} {f : α → Json} (h : ∀ a ∈ items, (f a).IsPlain) :
    (array (items.map f)).IsPlain := by
  refine .array _ fun j hj => ?_
  obtain ⟨a, ha, rfl⟩ := List.mem_map.mp hj
  exact h a ha

theorem isPlain_entry? {α : Type} {key : String} {f : α → Json} (h : ∀ a, (f a).IsPlain)
    (o : Option α) : ∀ e ∈ entry? key f o, e.2.IsPlain := by
  cases o with
  | none => exact List.forall_mem_nil _
  | some a => exact List.forall_mem_singleton.mpr (h a)

theorem asString?_ofString (s : String) : asString? (ofString s) = some s := rfl

theorem nullable_none {α : Type} {f : Json → Option α} : nullable f none = some none := rfl

theorem nullable_ofString (s : String) : nullable asString? (some (ofString s)) = some (some s) := rfl

theorem asList?_array_map {α : Type} {f : Json → Option α} {g : α → Json} {items : List α}
    (h : ∀ a ∈ items, f (g a) = some a) : asList? f (.array (items.map g)) = some items := by
  change (items.map g).mapM f = some items
  induction items with
  | nil => rfl
  | cons a items ih =>
    obtain ⟨ha, hitems⟩ := List.forall_mem_cons.mp h
    simp [ha, ih hitems]

theorem asEntries?_record {α : Type} {f : Json → Option α} {g : α → Json}
    (h : ∀ a, f (g a) = some a) (entries : List (String × α)) :
    asEntries? f (.record (entries.map fun e => (e.1, g e.2))) = some entries := by
  simp only [record, asEntries?, List.map_map]
  induction entries with
  | nil => rfl
  | cons e entries ih => simp [h, ih]

end Json

open Json (required defaulted nullable asString? asBool? asNat? asList? entry?)

/-! ## Locations, nodes and edges -/

theorem Location.isPlain_toJson (l : Location) : l.toJson.IsPlain := by
  refine Json.isPlain_record ?_
  simp [Json.isPlain_ofString, Json.IsPlain.nat]

theorem Location.ofJson?_toJson {l : Location} (hl : l.line ≤ Json.maxNat) :
    ofJson? l.toJson = some l := by
  simp [ofJson?, toJson, Json.fields?, Json.record, Json.lookup?, required, Json.asString?_ofString,
    asNat?, hl]

theorem Node.isPlain_toJson (n : Node) : n.toJson.IsPlain := by
  refine Json.isPlain_record (List.forall_mem_append.mpr
    ⟨?_, Json.isPlain_entry? Json.isPlain_ofString n.description⟩)
  simp [Json.isPlain_ofString, Json.IsPlain.bool, Location.isPlain_toJson]

theorem Node.ofJson?_toJson {n : Node} (hn : n.source.line ≤ Json.maxNat) :
    ofJson? n.toJson = some n := by
  obtain ⟨id, label, type, source, isEntryPoint, isExitPoint, pending, description⟩ := n
  have hsource : Location.ofJson? source.toJson = some source := Location.ofJson?_toJson hn
  cases description <;>
    simp [ofJson?, toJson, Json.fields?, Json.record, Json.lookup?, required, entry?, defaulted, asBool?,
      Json.asString?_ofString, Json.nullable_none, Json.nullable_ofString, hsource]

theorem Edge.isPlain_toJson (e : Edge) : e.toJson.IsPlain := by
  refine Json.isPlain_record ?_
  simp only [List.forall_mem_append]
  refine ⟨⟨⟨?_, Json.isPlain_entry? Json.isPlain_ofString e.dataType⟩,
    Json.isPlain_entry? Json.isPlain_ofString e.description⟩,
    Json.isPlain_entry? Location.isPlain_toJson e.sourceLocation⟩
  simp [Json.isPlain_ofString]

theorem Edge.ofJson?_toJson {e : Edge} (he : ∀ l, e.sourceLocation = some l → l.line ≤ Json.maxNat) :
    ofJson? e.toJson = some e := by
  obtain ⟨source, target, label, dataType, description, sourceLocation⟩ := e
  have hlocation (l : Location) (hl : sourceLocation = some l) :
      nullable Location.ofJson? (some l.toJson) = some (some l) :=
    congrArg (Option.map some) (Location.ofJson?_toJson (he l hl))
  cases dataType <;> cases description <;> cases sourceLocation <;>
    simp [ofJson?, toJson, Json.fields?, Json.record, Json.lookup?, required, entry?,
      Json.asString?_ofString, Json.nullable_none, Json.nullable_ofString, hlocation]

/-! ## Graphs -/

/-- Whether all lines of a graph are numbers of 64 bits. -/
structure Graph.HasFittingLines (g : Graph) : Prop where
  nodes : ∀ n ∈ g.nodes, n.source.line ≤ Json.maxNat
  edges : ∀ e ∈ g.edges, ∀ l, e.sourceLocation = some l → l.line ≤ Json.maxNat

theorem Graph.isPlain_toJson (g : Graph) : g.toJson.IsPlain := by
  refine Json.isPlain_record ?_
  simp [Json.isPlain_array_map, Node.isPlain_toJson, Edge.isPlain_toJson]

theorem Graph.ofJson?_toJson {g : Graph} (hg : g.HasFittingLines) : ofJson? g.toJson = some g := by
  have hnodes := Json.asList?_array_map fun n hn => Node.ofJson?_toJson (hg.nodes n hn)
  have hedges := Json.asList?_array_map fun e he => Edge.ofJson?_toJson (hg.edges e he)
  simp [ofJson?, toJson, Json.fields?, Json.record, Json.lookup?, required, hnodes, hedges]

end Flowgraph

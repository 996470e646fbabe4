import Flowgraph.Proofs.Ordered
import Flowgraph.Resolver.Basic

/-!
# Resolution when a file is added or changed

A file that becomes known, or gets another entry, changes its own calls and those of its importers
alone.
-/

namespace Flowgraph

namespace Resolver

variable {r s : Resolver} {path importer specifier file module : String} {entry : IndexEntry}

/-! ## Specifiers -/

theorem bareModule?_ne_importer {cs : List Char} : r.bareModule? importer cs ≠ some importer := by
  have hother {p : String → Bool} {found : String}
      (hfound : (r.knownFiles.toList.filter (· != importer)).find? p = some found) :
      found ≠ importer := by
    have hmem := List.mem_of_find?_eq_some hfound
    simpa using (List.mem_filter.mp hmem).2
  intro heq
  rw [bareModule?] at heq
  split at heq
  · cases heq
  · simp only at heq
    split at heq
    next found hfound =>
      cases heq
      exact hother hfound rfl
    next => exact hother heq rfl

/-- No specifier stands for the file that it is written in. -/
theorem resolveSpecifier_ne_importer : r.resolveSpecifier importer specifier ≠ some importer := by
  have hfilter {o : Option String} : o.filter (· != importer) ≠ some importer := by
    rw [ne_eq, Option.filter_eq_some_iff, bne_self_eq_false]
    exact fun heq => Bool.false_ne_true heq.2
  intro heq
  rw [resolveSpecifier] at heq
  split at heq
  · split at heq
    · cases heq
    · exact hfilter heq
  · split at heq
    next hfound =>
      cases heq
      exact hfilter hfound
    next => exact bareModule?_ne_importer heq

/-- A specifier leads to the same file wherever the same files are known. -/
theorem resolveSpecifier_congr (hknown : s.knownFiles = r.knownFiles) :
    s.resolveSpecifier importer specifier = r.resolveSpecifier importer specifier := by
  simp only [resolveSpecifier, knownCandidate?, bareModule?, hknown]

/-- A lookup that leads where it led before, unless it leads to the given file now. -/
def StableBut (path : String) (before after : Option String) : Prop :=
  after = before ∨ after = some path

theorem StableBut.eq_of_ne {before after : Option String} (h : StableBut path before after)
    (hne : after ≠ some path) : after = before :=
  h.resolve_right hne

theorem StableBut.filter {before after : Option String} (h : StableBut path before after)
    {p : String → Bool} (hp : p path = true) : StableBut path (before.filter p) (after.filter p) := by
  rcases h with rfl | rfl
  · exact .inl rfl
  · exact .inr (Option.filter_some_pos hp)

theorem StableBut.or {before after before' after' : Option String} (h : StableBut path before after)
    (h' : StableBut path before' after') :
    StableBut path (before.or before') (after.or after') := by
  rcases h with rfl | rfl
  · cases after with
    | none => exact h'
    | some file => exact .inl rfl
  · exact .inr rfl

theorem StableBut.findSome? {α : Type} {before after : α → Option String} {l : List α}
    (h : ∀ a ∈ l, StableBut path (before a) (after a)) :
    StableBut path (l.findSome? before) (l.findSome? after) := by
  induction l with
  | nil => exact .inl rfl
  | cons a l ih =>
    have hrest := (h a List.mem_cons_self).or (ih fun b hb => h b (List.mem_cons_of_mem a hb))
    have hor (f : α → Option String) : (a :: l).findSome? f = (f a).or (l.findSome? f) := by
      rw [List.findSome?_cons]
      cases f a <;> rfl
    rwa [hor, hor]

/-- A bare specifier is looked up by two properties of the known files, one after the other. -/
theorem exists_bareModule?_eq_or (importer : String) (cs : List Char) :
    ∃ p q : String → Bool, ∀ r : Resolver, r.bareModule? importer cs =
      (r.knownFiles.toList.find? p).or (r.knownFiles.toList.find? q) := by
  generalize hbare : Text.dropEndWhile (· == '/') (cs.dropWhile (· == '/')) = bare
  by_cases hempty : bare.isEmpty = true
  · refine ⟨fun _ => false, fun _ => false, fun r => ?_⟩
    have hnone : r.knownFiles.toList.find? (fun _ => false) = none :=
      List.find?_eq_none.mpr fun _ _ => Bool.false_ne_true
    simp only [bareModule?, hbare, hempty, if_true, hnone, Option.none_or]
  · refine ⟨fun file => file != importer && endsInModule (modulePath file.toList) bare,
      fun file => file != importer && lastPart (modulePath file.toList) == lastPart bare, fun r => ?_⟩
    have hfilter (p : String → Bool) : (r.knownFiles.toList.filter (· != importer)).find? p =
        r.knownFiles.toList.find? fun file => file != importer && p file := by
      simp only [List.find?_filter, Bool.decide_and, Bool.decide_eq_true]
    simp only [bareModule?, hbare, hempty, Bool.false_eq_true, if_false, hfilter]
    split
    next hfound => rw [hfound, Option.some_or]
    next hnone => rw [hnone, Option.none_or]

section Insert

variable (hknown : s.knownFiles = r.knownFiles.insert path)

include hknown

theorem knownCandidate?_insert (cs : List Char) :
    StableBut path (r.knownCandidate? cs) (s.knownCandidate? cs) := by
  rw [knownCandidate?, knownCandidate?, hknown]
  -- The candidate that has become known is found, unless one before it has been known already.
  induction (candidates cs).map String.ofList with
  | nil => exact .inl rfl
  | cons c cs ih =>
    by_cases hc : c = path
    · refine .inr ?_
      rw [List.find?_cons_of_pos (by simp [hc]), hc]
    · have hsame : (r.knownFiles.insert path).contains c = r.knownFiles.contains c := by
        simp [Std.ExtTreeSet.contains_insert, Ne.symm hc]
      rw [List.find?_cons, List.find?_cons, hsame]
      cases r.knownFiles.contains c with
      | true => exact .inl rfl
      | false => exact ih

theorem bareModule?_insert (importer : String) (cs : List Char) :
    StableBut path (r.bareModule? importer cs) (s.bareModule? importer cs) := by
  obtain ⟨p, q, hor⟩ := exists_bareModule?_eq_or importer cs
  rw [hor r, hor s, hknown]
  exact StableBut.or (OrderedSet.find?_toList_insert r.knownFiles p path)
    (OrderedSet.find?_toList_insert r.knownFiles q path)

/-- With one more known file, a specifier in another file leads where it led before or to that file. -/
theorem resolveSpecifier_insert (hne : path ≠ importer) (specifier : String) :
    StableBut path (r.resolveSpecifier importer specifier)
      (s.resolveSpecifier importer specifier) := by
  have hkeep : (path != importer) = true := bne_iff_ne.mpr hne
  have hcandidate (cs : List Char) :=
    (knownCandidate?_insert hknown cs).filter (p := (· != importer)) hkeep
  simp only [resolveSpecifier]
  split
  · split
    · exact .inl rfl
    · exact hcandidate _
  · have hboth := (hcandidate specifier.toList).or
      (bareModule?_insert hknown importer specifier.toList)
    cases hr : (r.knownCandidate? specifier.toList).filter (· != importer) <;>
      cases hs : (s.knownCandidate? specifier.toList).filter (· != importer) <;>
      simpa only [hr, hs, Option.none_or, Option.some_or] using hboth

theorem resolveModule_insert (hne : path ≠ importer) (entry : IndexEntry) (module : String) :
    StableBut path (r.resolveModule importer entry module) (s.resolveModule importer entry module) :=
  StableBut.findSome? fun specifier _ => resolveSpecifier_insert hknown hne specifier

end Insert

/-! ## Importers -/

private theorem findSome?_congr {α β : Type} {f g : α → Option β} {l : List α}
    (h : ∀ a ∈ l, f a = g a) : l.findSome? f = l.findSome? g := by
  induction l with
  | nil => rfl
  | cons a l ih =>
    rw [List.findSome?_cons, List.findSome?_cons, h a List.mem_cons_self,
      ih fun b hb => h b (List.mem_cons_of_mem a hb)]

theorem mem_importersOf :
    file ∈ r.importersOf path ↔
      file ≠ path ∧ ∃ entry, r.index[file]? = some entry ∧
        ∃ b ∈ entry.imports, ∃ s ∈ b.specifiers, r.resolveSpecifier file s = some path := by
  simp only [importersOf, List.mem_filterMap, Option.ite_none_right_eq_some, Bool.and_eq_true,
    bne_iff_ne, List.any_eq_true, beq_iff_eq, Option.some.injEq, Prod.exists,
    Std.ExtTreeMap.mem_toList_iff_getElem?_eq_some]
  constructor
  · rintro ⟨importer, entry, hentry, ⟨hne, himport⟩, rfl⟩
    exact ⟨hne, entry, hentry, himport⟩
  · rintro ⟨hne, entry, hentry, himport⟩
    exact ⟨file, entry, hentry, ⟨hne, himport⟩, rfl⟩

theorem exists_specifier_of_resolveModule {target : String}
    (h : r.resolveModule file entry module = some target) :
    ∃ b ∈ entry.imports, ∃ s ∈ b.specifiers, r.resolveSpecifier file s = some target := by
  obtain ⟨s, hs, hresolve⟩ := List.exists_of_findSome?_eq_some h
  obtain ⟨b, hb, hsb⟩ := List.mem_flatMap.mp hs
  exact ⟨b, (List.mem_filter.mp hb).1, s, hsb, hresolve⟩

/-! ## Calls -/

theorem mem_derivedCalls {c : CrossFileCall} :
    c ∈ r.derivedCalls file ↔ ∃ entry, r.index[file]? = some entry ∧
      ∃ f ∈ entry.functions, ∃ call ∈ f.calls, r.resolveCall? file entry f call = some c := by
  rw [derivedCalls]
  split
  next hnone => simp [hnone]
  next entry hentry =>
    simp only [Std.ExtTreeSet.mem_ofList, List.contains_iff_mem, List.mem_flatMap, List.mem_filterMap,
      hentry, Option.some.injEq, exists_eq_left']

theorem resolveCall?_eq_some {f : IndexedFunction} {call : String} {c : CrossFileCall} :
    r.resolveCall? file entry f call = some c ↔
      ∃ module callee target, Call.split call = (some module, callee) ∧
        r.resolveModule file entry module = some target ∧
        (∃ targetEntry, r.index[target]? = some targetEntry ∧
          targetEntry.exportsFunction callee = true) ∧
        c = ⟨⟨file, f.name, f.line⟩, ⟨target, callee, module⟩⟩ := by
  rw [resolveCall?]
  constructor
  · intro hcall
    split at hcall
    next => cases hcall
    next module callee hsplit =>
      split at hcall
      next => cases hcall
      next target hmodule =>
        split at hcall
        next => cases hcall
        next targetEntry htarget =>
          rw [Option.ite_none_right_eq_some, Option.some.injEq] at hcall
          exact ⟨module, callee, target, hsplit, hmodule, ⟨targetEntry, htarget, hcall.1⟩,
            hcall.2.symm⟩
  · rintro ⟨module, callee, target, hsplit, hmodule, ⟨targetEntry, htarget, hexports⟩, rfl⟩
    simp only [hsplit, hmodule, htarget, hexports, if_true]

theorem caller_file_of_mem_derivedCalls {c : CrossFileCall} (hc : c ∈ r.derivedCalls file) :
    c.caller.file = file := by
  obtain ⟨entry, -, f, -, call, -, hcall⟩ := mem_derivedCalls.mp hc
  obtain ⟨module, callee, target, -, -, -, rfl⟩ := resolveCall?_eq_some.mp hcall
  rfl

/-- A derived call leads to another file. -/
theorem callee_file_ne_of_mem_derivedCalls {c : CrossFileCall} (hc : c ∈ r.derivedCalls file) :
    c.callee.file ≠ file := by
  obtain ⟨entry, -, f, -, call, -, hcall⟩ := mem_derivedCalls.mp hc
  obtain ⟨module, callee, target, -, hmodule, -, rfl⟩ := resolveCall?_eq_some.mp hcall
  obtain ⟨b, -, s, -, hresolve⟩ := exists_specifier_of_resolveModule hmodule
  rintro (rfl : target = file)
  exact resolveSpecifier_ne_importer hresolve

/-- Where the imports of a file lead nowhere else, and the files they lead to keep their entries, the
file keeps its calls. -/
theorem derivedCalls_eq_of_imports (hentry : s.index[file]? = r.index[file]?)
    (hresolve : ∀ entry, s.index[file]? = some entry →
      ∀ b ∈ entry.imports, ∀ specifier ∈ b.specifiers,
        s.resolveSpecifier file specifier = r.resolveSpecifier file specifier ∧
          ∀ target, s.resolveSpecifier file specifier = some target →
            s.index[target]? = r.index[target]?) :
    s.derivedCalls file = r.derivedCalls file := by
  refine Std.ExtTreeSet.ext_mem fun c => ?_
  rw [mem_derivedCalls, mem_derivedCalls, ← hentry]
  refine exists_congr fun entry => and_congr_right fun hindex => ?_
  have hmodule (module : String) :
      s.resolveModule file entry module = r.resolveModule file entry module := by
    rw [resolveModule, resolveModule]
    refine findSome?_congr fun specifier hspecifier => ?_
    obtain ⟨b, hb, hs⟩ := List.mem_flatMap.mp hspecifier
    exact (hresolve entry hindex b (List.mem_filter.mp hb).1 specifier hs).1
  -- The functions and their calls are those of the entry, and only where a call leads is in question.
  refine exists_congr fun f => and_congr_right fun _ =>
    exists_congr fun call => and_congr_right fun _ => ?_
  rw [resolveCall?_eq_some, resolveCall?_eq_some]
  refine exists_congr fun module => exists_congr fun callee => exists_congr fun target =>
    and_congr_right fun _ => ?_
  rw [hmodule]
  refine and_congr_right fun hfound => and_congr_left fun _ => ?_
  rw [← hmodule] at hfound
  obtain ⟨b, hb, specifier, hs, hfound⟩ := exists_specifier_of_resolveModule hfound
  rw [(hresolve entry hindex b hb specifier hs).2 target hfound]

theorem derivedCalls_congr (hindex : s.index = r.index) (hknown : s.knownFiles = r.knownFiles) :
    s.derivedCalls file = r.derivedCalls file :=
  derivedCalls_eq_of_imports (by rw [hindex]) fun _ _ _ _ _ _ =>
    ⟨resolveSpecifier_congr hknown, fun _ _ => by rw [hindex]⟩

theorem importersOf_congr (hindex : s.index = r.index) (hknown : s.knownFiles = r.knownFiles) :
    s.importersOf path = r.importersOf path := by
  simp only [importersOf, hindex, resolveSpecifier_congr hknown]

/-- A file of which no import leads to the file that has been put into the index keeps its calls. -/
theorem derivedCalls_insert (hindex : s.index = r.index.insert path entry)
    (hknown : s.knownFiles = r.knownFiles.insert path) (hne : file ≠ path)
    (himporter : file ∉ s.importersOf path) : s.derivedCalls file = r.derivedCalls file := by
  have hget (target : String) (htarget : target ≠ path) : s.index[target]? = r.index[target]? := by
    rw [hindex, Std.ExtTreeMap.getElem?_insert, if_neg]
    rw [Std.LawfulEqCmp.compare_eq_iff_eq]
    exact htarget.symm
  refine derivedCalls_eq_of_imports (hget file hne) fun entry hentry b hb specifier hs => ?_
  -- Were the specifier to lead to the file now, it would have an importer more.
  have hnot : s.resolveSpecifier file specifier ≠ some path := fun hfound =>
    himporter (mem_importersOf.mpr ⟨hne, entry, hentry, b, hb, specifier, hs, hfound⟩)
  refine ⟨(resolveSpecifier_insert hknown hne.symm specifier).eq_of_ne hnot, fun target htarget => ?_⟩
  exact hget target fun heq => hnot (heq ▸ htarget)

end Resolver

end Flowgraph

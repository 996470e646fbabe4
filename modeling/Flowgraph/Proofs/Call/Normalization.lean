import Flowgraph.Proofs.Call
import Flowgraph.Proofs.Text.CharClass
import Flowgraph.Proofs.Text.Slice
import Mathlib.Data.List.TakeWhile

/-!
# Normalized calls

The form in which a call is recorded, and what is made of it where it is normalized again. The self
receivers are dropped in front of the trailing identifiers, before these are cut to the last two: one
that stands further back is not dropped, and the cut brings it to the front.
-/

namespace Flowgraph

namespace Call

variable {raw call : String} {f m s : List Char} {segs before : List (List Char)} {c : Char}

/-! ## Identifiers -/

theorem isIdentifierPart_of_mem (hs : isIdentifier s = true) (hc : c ∈ s) :
    isIdentifierPart c = true := by
  cases s with
  | nil => cases hc
  | cons first rest =>
    rw [isIdentifier, Bool.and_eq_true] at hs
    obtain ⟨hfirst, hrest⟩ := hs
    obtain rfl | hc := List.mem_cons.1 hc
    · simp only [isIdentifierStart, Bool.or_eq_true] at hfirst
      simp only [isIdentifierPart, Bool.or_eq_true]
      exact hfirst.imp_left (.imp_left Text.isAlphanumeric_of_isAlphabetic)
    · exact List.all_eq_true.1 hrest c hc

theorem ne_nil_of_isIdentifier (hs : isIdentifier s = true) : s ≠ [] := by
  rintro rfl
  cases hs

theorem not_mem_of_isIdentifier (hs : isIdentifier s = true) (hc : isIdentifierPart c = false) :
    c ∉ s := by
  intro hmem
  rw [isIdentifierPart_of_mem hs hmem] at hc
  cases hc

theorem isBlank_eq_false_of_isIdentifierPart (hc : isIdentifierPart c = true) :
    Text.isBlank c = false := by
  simp only [isIdentifierPart, Bool.or_eq_true, beq_iff_eq] at hc
  obtain (hc | rfl) | rfl := hc
  · exact Text.isBlank_eq_false_of_isAlphanumeric hc
  · decide
  · decide

/-! ## Reading identifiers back -/

/-- The text of identifiers with a dot between each two. -/
def dotted (segs : List (List Char)) : String := String.ofList (Text.join ['.'] segs)

@[simp]
theorem toList_dotted : (dotted segs).toList = Text.join ['.'] segs := String.toList_ofList

theorem dotted_singleton : dotted [f] = String.ofList f := rfl

theorem dotted_pair : dotted [m, f] = String.ofList (m ++ '.' :: f) := by
  simp [dotted, Text.join]

theorem dotted_singleton_ne_pair : dotted [f] ≠ dotted [m, f] := by
  intro heq
  have hlength := congrArg (·.toList.length) heq
  simp only [toList_dotted, Text.join, List.length_append, List.length_singleton] at hlength
  omega

theorem eq_dot_or_isIdentifierPart (hsegs : ∀ s ∈ segs, isIdentifier s = true)
    (hc : c ∈ (dotted segs).toList) : c = '.' ∨ isIdentifierPart c = true := by
  rw [toList_dotted] at hc
  obtain hc | ⟨s, hs, hc⟩ := Text.mem_of_mem_join hc
  · exact .inl (List.mem_singleton.1 hc)
  · exact .inr (isIdentifierPart_of_mem (hsegs s hs) hc)

theorem not_mem_dotted (hsegs : ∀ s ∈ segs, isIdentifier s = true)
    (hc : c ≠ '.' ∧ isIdentifierPart c = false) : c ∉ (dotted segs).toList := by
  intro hmem
  obtain hdot | hpart := eq_dot_or_isIdentifierPart hsegs hmem
  · exact hc.1 hdot
  · rw [hc.2] at hpart
    cases hpart

theorem strip_eq_self (hopen : '<' ∉ s) (hmark : '!' ∉ s) (hblank : ∀ c ∈ s, Text.isBlank c = false) :
    strip 0 s = s := by
  induction s with
  | nil => rfl
  | cons c cs ih =>
    rw [List.mem_cons, not_or] at hopen hmark
    rw [List.forall_mem_cons] at hblank
    simp [strip, Ne.symm hopen.1, Ne.symm hmark.1, hblank.1, ih hopen.2 hmark.2 hblank.2]

theorem strip_dotted (hsegs : ∀ s ∈ segs, isIdentifier s = true) :
    strip 0 (dotted segs).toList = (dotted segs).toList := by
  refine strip_eq_self (not_mem_dotted hsegs (by decide)) (not_mem_dotted hsegs (by decide)) ?_
  intro c hc
  obtain rfl | hpart := eq_dot_or_isIdentifierPart hsegs hc
  · decide
  · exact isBlank_eq_false_of_isIdentifierPart hpart

theorem segments_dotted (hsegs : ∀ s ∈ segs, isIdentifier s = true) :
    segments (dotted segs).toList = segs := by
  have hreplace : Text.replacePair ':' ':' '.' (Text.replacePair '?' '.' '.' (dotted segs).toList) =
      (dotted segs).toList := by
    rw [Text.replacePair_of_not_mem (not_mem_dotted hsegs (by decide)),
      Text.replacePair_of_not_mem (not_mem_dotted hsegs (by decide))]
  have hkept : ∀ s ∈ segs, (!s.isEmpty) = true := by
    intro s hs
    simp [ne_nil_of_isIdentifier (hsegs s hs)]
  rw [segments, hreplace, toList_dotted]
  obtain rfl | hne := eq_or_ne segs []
  · rfl
  · rw [Text.splitOn_join hne fun s hs => not_mem_of_isIdentifier (hsegs s hs) (by decide),
      List.filter_eq_self.2 hkept]

/-! ## Trailing identifiers -/

/-- The identifiers at the end of a callee. -/
def trailing (raw : String) : List (List Char) :=
  ((segments (strip 0 raw.toList)).reverse.takeWhile isIdentifier).reverse

/-- Whether a segment names the enclosing object. -/
def isSelf (s : List Char) : Bool := selfReceivers.contains (String.ofList s)

/-- Whether a segment is a keyword. -/
def isKeyword (s : List Char) : Bool := keywords.contains (String.ofList s)

/-- The identifiers at the end of a callee, less the self receivers that lead them. -/
def kept (raw : String) : List (List Char) := (trailing raw).dropWhile isSelf

theorem namedTail_eq_kept : namedTail (segments (strip 0 raw.toList)) = kept raw := rfl

theorem isSelf_eq_true : isSelf s = true ↔ String.ofList s ∈ selfReceivers := List.contains_iff_mem

theorem isIdentifier_of_mem_trailing (hs : s ∈ trailing raw) : isIdentifier s = true := by
  rw [trailing, List.mem_reverse] at hs
  exact List.mem_takeWhile_imp hs

theorem isIdentifier_of_kept_eq (h : kept raw = segs) (hs : s ∈ segs) : isIdentifier s = true := by
  subst h
  exact isIdentifier_of_mem_trailing ((List.dropWhile_sublist _).subset hs)

/-- What is kept is not led by a self receiver. -/
theorem isSelf_of_kept_eq_cons (h : kept raw = s :: segs) : isSelf s = false := by
  rw [kept] at h
  have hhead := List.head_dropWhile_not isSelf (l := trailing raw) (by simp [h])
  simpa only [h, List.head_cons] using hhead

theorem trailing_dotted (hsegs : ∀ s ∈ segs, isIdentifier s = true) :
    trailing (dotted segs) = segs := by
  rw [trailing, strip_dotted hsegs, segments_dotted hsegs,
    List.takeWhile_eq_self_iff.2 fun s hs => hsegs s (List.mem_reverse.1 hs), List.reverse_reverse]

theorem kept_dotted (hsegs : ∀ s ∈ segs, isIdentifier s = true) :
    kept (dotted segs) = segs.dropWhile isSelf := by
  rw [kept, trailing_dotted hsegs]

/-! ## What is recorded -/

theorem normalize_congr (h : kept raw = kept call) : normalize raw = normalize call := by
  rw [normalize, normalize, namedTail_eq_kept, namedTail_eq_kept, h]

theorem normalize_of_nil (h : kept raw = []) : normalize raw = none := by
  rw [normalize, namedTail_eq_kept, h]
  rfl

theorem normalize_of_singleton (h : kept raw = [f]) :
    normalize raw = if isKeyword f then none else some (dotted [f]) := by
  rw [normalize, namedTail_eq_kept, h]
  rfl

theorem normalize_of_pair (h : kept raw = before ++ [m, f]) :
    normalize raw = if isKeyword f then none else some (dotted [m, f]) := by
  rw [normalize, namedTail_eq_kept, h, dotted_pair]
  simp [isKeyword]

/-- What is recorded of a callee is the last one or two of the identifiers that are kept, unless the
last is a keyword. -/
theorem normalize_eq_some_iff :
    normalize raw = some call ↔
      (∃ f, kept raw = [f] ∧ isKeyword f = false ∧ call = dotted [f]) ∨
        ∃ before m f, kept raw = before ++ [m, f] ∧ isKeyword f = false ∧
          call = dotted [m, f] := by
  constructor
  · intro h
    obtain hnil | ⟨before, f, hlast⟩ := List.eq_nil_or_concat (kept raw)
    · rw [normalize_of_nil hnil] at h
      cases h
    obtain rfl | ⟨before, m, rfl⟩ := List.eq_nil_or_concat before
    · rw [normalize_of_singleton hlast, Option.ite_none_left_eq_some, Option.some.injEq,
        Bool.not_eq_true] at h
      exact .inl ⟨f, hlast, h.1, h.2.symm⟩
    · simp only [List.concat_eq_append, List.append_assoc, List.singleton_append] at hlast
      rw [normalize_of_pair hlast, Option.ite_none_left_eq_some, Option.some.injEq,
        Bool.not_eq_true] at h
      exact .inr ⟨before, m, f, hlast, h.1, h.2.symm⟩
  · rintro (⟨f, htail, hkey, rfl⟩ | ⟨before, m, f, htail, hkey, rfl⟩)
    · rw [normalize_of_singleton htail, hkey]
      rfl
    · rw [normalize_of_pair htail, hkey]
      rfl

/-! ## The parts of a recorded call -/

theorem split_dotted_singleton (hf : isIdentifier f = true) :
    split (dotted [f]) = (none, String.ofList f) := by
  rw [split_eq_none_iff, dotted_singleton, String.toList_ofList]
  exact ⟨rfl, not_mem_of_isIdentifier hf (by decide)⟩

theorem split_dotted_pair (hm : isIdentifier m = true) :
    split (dotted [m, f]) = (some (String.ofList m), String.ofList f) := by
  rw [split_eq_some_iff, dotted_pair, String.toList_ofList]
  refine ⟨?_, not_mem_of_isIdentifier hm (by decide)⟩
  rw [← String.toList_inj]
  simp

/-! ## Normalizing again -/

theorem normalize_dotted_singleton (hf : isIdentifier f = true) (hkey : isKeyword f = false) :
    normalize (dotted [f]) = if isSelf f then none else some (dotted [f]) := by
  have hkept : kept (dotted [f]) = [f].dropWhile isSelf := kept_dotted (by simpa using hf)
  cases hself : isSelf f with
  | true => exact normalize_of_nil (by simp [hkept, hself])
  | false =>
    have hall : kept (dotted [f]) = [f] := by simp [hkept, hself]
    simp [normalize_of_singleton hall, hkey]

/-- A module that is a self receiver is dropped. -/
theorem normalize_dotted_pair (hm : isIdentifier m = true) (hf : isIdentifier f = true)
    (hkey : isKeyword f = false) :
    normalize (dotted [m, f]) =
      if isSelf m then normalize (dotted [f]) else some (dotted [m, f]) := by
  have hkept : kept (dotted [m, f]) = [m, f].dropWhile isSelf := kept_dotted (by simp [hm, hf])
  cases hself : isSelf m with
  | true =>
    have hkept' : kept (dotted [f]) = [f].dropWhile isSelf := kept_dotted (by simpa using hf)
    rw [if_pos rfl]
    exact normalize_congr (by rw [hkept, hkept', List.dropWhile_cons_of_pos hself])
  | false =>
    have hall : kept (dotted [m, f]) = [] ++ [m, f] := by simp [hkept, hself]
    simp [normalize_of_pair hall, hkey]

/-- A self receiver stands right before the function, after an identifier that is none. It leads
nothing and is not dropped, but the cut to two parts puts it in front. -/
def HidesSelf (raw : String) : Prop :=
  ∃ before m f, trailing raw = before ++ [m, f] ∧ isSelf m = true ∧ ∃ s ∈ before, isSelf s = false

/-- A hidden self receiver becomes the module of the recorded call. -/
theorem hidesSelf_iff :
    HidesSelf raw ↔ ∃ before m f, kept raw = before ++ [m, f] ∧ isSelf m = true := by
  constructor
  · rintro ⟨before, m, f, htrailing, hm, s, hs, hself⟩
    have hbefore : before.dropWhile isSelf ≠ [] := by
      rw [Ne, List.dropWhile_eq_nil_iff]
      intro hall
      rw [hall s hs] at hself
      cases hself
    refine ⟨before.dropWhile isSelf, m, f, ?_, hm⟩
    rw [kept, htrailing, List.dropWhile_append, if_neg (by simpa using hbefore)]
  · rintro ⟨before, m, f, htail, hm⟩
    have htrailing := (List.takeWhile_append_dropWhile (p := isSelf) (l := trailing raw)).symm
    rw [← kept, htail, ← List.append_assoc] at htrailing
    cases before with
    | nil =>
      -- The module would lead what is left.
      rw [isSelf_of_kept_eq_cons htail] at hm
      cases hm
    | cons s before =>
      exact ⟨_, m, f, htrailing, hm, s, by simp, isSelf_of_kept_eq_cons htail⟩

theorem hidesSelf_iff_of_pair (h : kept raw = before ++ [m, f]) :
    HidesSelf raw ↔ isSelf m = true := by
  rw [hidesSelf_iff]
  constructor
  · rintro ⟨before', m', f', heq, hm⟩
    obtain ⟨-, hlast⟩ := List.append_inj' (h.symm.trans heq) rfl
    rwa [(List.cons.inj hlast).1]
  · intro hm
    exact ⟨before, m, f, h, hm⟩

/-- Normalizing a recorded call changes nothing, unless its callee hides a self receiver. This is then
the module of the call and is dropped the second time, and the function with it if it is one itself. -/
theorem normalize_of_normalize (h : normalize raw = some call) :
    (normalize call = some call ↔ ¬HidesSelf raw) ∧
      (HidesSelf raw ↔ ∃ module ∈ selfReceivers, (split call).1 = some module) ∧
      (HidesSelf raw → normalize call = (some (split call).2).filter (· ∉ selfReceivers)) := by
  obtain ⟨f, htail, hkey, rfl⟩ | ⟨before, m, f, htail, hkey, rfl⟩ := normalize_eq_some_iff.1 h
  · have hf : isIdentifier f = true := isIdentifier_of_kept_eq htail (by simp)
    have hself : isSelf f = false := isSelf_of_kept_eq_cons htail
    have hnot : ¬HidesSelf raw := by
      rw [hidesSelf_iff, htail]
      rintro ⟨before, m, g, heq, -⟩
      simpa using congrArg List.length heq
    simp [normalize_dotted_singleton hf hkey, hself, hnot, split_dotted_singleton hf]
  · have hm : isIdentifier m = true := isIdentifier_of_kept_eq htail (by simp)
    have hf : isIdentifier f = true := isIdentifier_of_kept_eq htail (by simp)
    have hparts : split (dotted [m, f]) = (some (String.ofList m), String.ofList f) :=
      split_dotted_pair hm
    rw [hidesSelf_iff_of_pair htail, normalize_dotted_pair hm hf hkey, hparts]
    refine ⟨?_, by simp [isSelf_eq_true], fun hself => ?_⟩
    · cases hself : isSelf m with
      | true =>
        have hdropped : normalize (dotted [f]) ≠ some (dotted [m, f]) := by
          rw [normalize_dotted_singleton hf hkey]
          split
          · simp
          · exact fun heq => dotted_singleton_ne_pair (Option.some.inj heq)
        simp [hdropped]
      | false => simp
    · rw [if_pos hself, normalize_dotted_singleton hf hkey]
      simp [Option.filter, dotted_singleton, isSelf_eq_true]

/-- A callee that hides a self receiver is recorded with it as the module of the call. -/
theorem normalize_of_normalize_of_hidden_receiver :
    normalize "a.self.f" = some "self.f" ∧ HidesSelf "a.self.f" ∧ normalize "self.f" = some "f" := by
  have hraw : normalize "a.self.f" = some "self.f" := by decide
  have hhides : HidesSelf "a.self.f" :=
    ⟨[['a']], ['s', 'e', 'l', 'f'], ['f'], by decide, by decide, ['a'], by decide⟩
  refine ⟨hraw, hhides, ?_⟩
  rw [(normalize_of_normalize hraw).2.2 hhides]
  decide

theorem exists_normalize_ne_of_normalize :
    ∃ raw call, normalize raw = some call ∧ normalize call ≠ some call ∧
      ∃ module function, split call = (some module, function) ∧ module ∈ selfReceivers :=
  ⟨"a.self.f", "self.f", by decide, by decide, "self", "f", by decide, by decide⟩

/-- Normalizing twice settles every callee. -/
theorem bind_normalize_bind_normalize :
    ((normalize raw).bind normalize).bind normalize = (normalize raw).bind normalize := by
  cases h : normalize raw with
  | none => rfl
  | some call =>
    rw [Option.bind_some]
    obtain ⟨f, htail, hkey, rfl⟩ | ⟨before, m, f, htail, hkey, rfl⟩ := normalize_eq_some_iff.1 h
    · have hf : isIdentifier f = true := isIdentifier_of_kept_eq htail (by simp)
      simp [normalize_dotted_singleton hf hkey, isSelf_of_kept_eq_cons htail]
    · have hm : isIdentifier m = true := isIdentifier_of_kept_eq htail (by simp)
      have hf : isIdentifier f = true := isIdentifier_of_kept_eq htail (by simp)
      cases hself : isSelf m with
      | true =>
        rw [normalize_dotted_pair hm hf hkey, hself, if_pos rfl, normalize_dotted_singleton hf hkey]
        cases hself' : isSelf f with
        | true => rfl
        | false => simp [normalize_dotted_singleton hf hkey, hself']
      | false => simp [normalize_dotted_pair hm hf hkey, hself]

end Call

end Flowgraph

import Flowgraph.Proofs.Imports.UseTree.Expansion
import Flowgraph.Proofs.Imports.UseTree.Grammar

/-!
# Reading use trees

The leaves read from a text that spells a use tree are those of the tree. The braces and commas of the
text are found by themselves, and so is the word in front of an alias, because no word of a path can be
taken for it.
-/

namespace Flowgraph.Imports.UseTree

variable {base scope : List Word} {word : Word} {last : Name} {newName : Option Name} {t : Tree}
  {ts : List Tree} {s tok u v w inside rest : List Char} {c : Char} {n : Nat}

/-! ## Tokens -/

theorem IsToken.isBlank (htok : IsToken tok) (hc : c ∈ tok) : Text.isBlank c = false := (htok.2.1 c hc).1

theorem IsToken.not_mem (htok : IsToken tok) (hc : c ∈ ['{', '}', ',', ':']) : c ∉ tok :=
  fun hmem => (htok.2.1 c hmem).2 hc

theorem IsToken.isTrimmed (htok : IsToken tok) : Text.IsTrimmed tok := by
  refine ⟨?_, ?_⟩
  · obtain ⟨c, cs, rfl⟩ := List.exists_cons_of_ne_nil htok.1
    exact ⟨c, cs, rfl, htok.isBlank List.mem_cons_self⟩
  · obtain rfl | ⟨cs, c, rfl⟩ := List.eq_nil_or_concat tok
    · exact absurd rfl htok.1
    · exact ⟨cs, c, List.concat_eq_append, htok.isBlank (by simp)⟩

theorem isToken_self : IsToken ['s', 'e', 'l', 'f'] := by decide

theorem isToken_glob : IsToken ['*'] := by decide

theorem Blanks.not_mem (hw : Blanks w) (hc : Text.isBlank c = false) : c ∉ w := by
  intro hmem
  rw [hw c hmem] at hc
  cases hc

theorem isBlank_eq_false_of_sign (hc : c ∈ ['{', '}', ',']) : Text.isBlank c = false := by
  simp only [List.mem_cons, List.not_mem_nil, or_false] at hc
  obtain rfl | rfl | rfl := hc <;> decide

/-- A scope holds no braces and no commas. -/
theorem SpellsScope.not_mem (hs : SpellsScope scope s) (hc : c ∈ ['{', '}', ',']) : c ∉ s := by
  have hmem : c ∈ ['{', '}', ',', ':'] := List.mem_append_left [':'] hc
  have hcolon : c ≠ ':' := by
    rintro rfl
    simp at hc
  have hblank := isBlank_eq_false_of_sign hc
  induction hs with
  | nil => exact List.not_mem_nil
  | cons hw hv _ ih =>
    simp [Word.isToken _ |>.not_mem hmem, hw.not_mem hblank, hv.not_mem hblank, hcolon, ih]

theorem SpellsScope.isTrimmed_append (hs : SpellsScope scope s) (hu : Text.IsTrimmed u) :
    Text.IsTrimmed (s ++ u) := by
  cases hs with
  | nil => exact hu
  | @cons word scope w v s hw hv hs =>
    have hword := word.isToken.isTrimmed
    have hall := hword.append (v := w ++ ':' :: ':' :: (v ++ s)) hu
    simpa using hall

theorem isTrimmed_aliasText (hs : Text.IsTrimmed s) : Text.IsTrimmed (s ++ aliasText newName) := by
  cases newName with
  | none => simpa [aliasText] using hs
  | some n => simpa [aliasText] using hs.append (v := [' ', 'a', 's', ' ']) n.isToken.isTrimmed

theorem Tree.Spells.isTrimmed (h : t.Spells s) : Text.IsTrimmed s := by
  cases h with
  | @path scope last newName s hs =>
    exact isTrimmed_aliasText (hs.isTrimmed_append last.isToken.isTrimmed)
  | self => exact isTrimmed_aliasText isToken_self.isTrimmed
  | glob hs => exact hs.isTrimmed_append isToken_glob.isTrimmed
  | @group scope items s inside hs hinside =>
    refine hs.isTrimmed_append ?_
    exact ⟨⟨'{', _, rfl, by decide⟩, '{' :: inside, '}', rfl, by decide⟩

/-! ## Items of groups -/

/-- Cutting at commas passes over the text, with `n` or more braces open. -/
def IsPassed (n : Nat) (s : List Char) : Prop :=
  ∀ m, n ≤ m → ∀ rest, splitCommas m (s ++ rest) = prepend s (splitCommas m rest)

theorem prepend_prepend {pieces : List (List Char)} :
    prepend s (prepend u pieces) = prepend (s ++ u) pieces := by
  cases pieces <;> simp [prepend]

theorem prepend_nil_splitCommas : prepend [] (splitCommas n s) = splitCommas n s := by
  cases s with
  | nil => rfl
  | cons c cs =>
    rw [splitCommas_cons]
    split
    · rfl
    · rw [prepend_prepend, List.nil_append]

theorem IsPassed.append (hs : IsPassed n s) (hu : IsPassed n u) : IsPassed n (s ++ u) := by
  intro m hm rest
  rw [List.append_assoc, hs m hm, hu m hm, prepend_prepend]

theorem IsPassed.mono {m : Nat} (hs : IsPassed n s) (h : n ≤ m) : IsPassed m s :=
  fun k hk rest => hs k (h.trans hk) rest

theorem isPassed_of_forall (hs : ∀ c ∈ s, c ∉ ['{', '}', ',']) : IsPassed n s := by
  intro m hm rest
  induction s with
  | nil => exact prepend_nil_splitCommas.symm
  | cons c cs ih =>
    rw [List.forall_mem_cons] at hs
    have hc : c ≠ '{' ∧ c ≠ '}' ∧ c ≠ ',' := by simpa using hs.1
    have hdepth : afterBrace m c = m := by simp [afterBrace, hc]
    rw [List.cons_append, splitCommas_cons, if_neg (by simp [hc]), hdepth, ih hs.2, prepend_prepend,
      List.singleton_append]

theorem isPassed_comma : IsPassed 1 [','] := by
  intro m hm rest
  rw [List.singleton_append, splitCommas_cons, if_neg (by omega)]
  rfl

/-- Braces around a text hide the commas in it. -/
theorem IsPassed.braces (hs : IsPassed 1 s) : IsPassed 0 ('{' :: (s ++ ['}'])) := by
  intro m _ rest
  rw [List.cons_append, splitCommas_cons, if_neg (by simp), List.append_assoc,
    show afterBrace m '{' = m + 1 from rfl, hs (m + 1) (by omega), List.singleton_append, splitCommas_cons,
    if_neg (by simp), show afterBrace (m + 1) '}' = m from rfl, prepend_prepend, prepend_prepend]
  simp

theorem IsToken.isPassed (htok : IsToken tok) : IsPassed n tok :=
  isPassed_of_forall fun c hc hsign => (htok.2.1 c hc).2 (List.mem_append_left [':'] hsign)

theorem Blanks.isPassed (hw : Blanks w) : IsPassed n w :=
  isPassed_of_forall fun _ hc hsign => hw.not_mem (isBlank_eq_false_of_sign hsign) hc

theorem SpellsScope.isPassed (hs : SpellsScope scope s) : IsPassed n s :=
  isPassed_of_forall fun _ hc hsign => hs.not_mem hsign hc

theorem isPassed_aliasText : IsPassed n (aliasText newName) := by
  cases newName with
  | none => exact isPassed_of_forall fun _ hc => absurd hc List.not_mem_nil
  | some name =>
    have hlead : IsPassed n [' ', 'a', 's', ' '] := isPassed_of_forall (by simp)
    exact hlead.append name.isToken.isPassed

mutual

theorem Tree.Spells.isPassed : {t : Tree} → {s : List Char} → t.Spells s → IsPassed 0 s
  | _, _, .path hs => (hs.isPassed.append (Word.isToken _).isPassed).append isPassed_aliasText
  | _, _, .self => isToken_self.isPassed.append isPassed_aliasText
  | _, _, .glob hs => hs.isPassed.append isToken_glob.isPassed
  | _, _, .group hs hinside => hs.isPassed.append hinside.isPassed.braces

theorem Tree.SpellsItems.isPassed :
    {ts : List Tree} → {s : List Char} → Tree.SpellsItems ts s → IsPassed 1 s
  | _, _, .nil hw => hw.isPassed
  | _, _, .last hw ht hv =>
    (hw.isPassed.append (ht.isPassed.mono (Nat.zero_le 1))).append hv.isPassed
  | _, _, .cons hw ht hv hrest =>
    ((hw.isPassed.append (ht.isPassed.mono (Nat.zero_le 1))).append hv.isPassed).append
      (isPassed_comma.append hrest.isPassed)

end

theorem Tree.Spells.isPassed_blanks (h : t.Spells s) (hw : Blanks w) (hv : Blanks v) :
    IsPassed 0 (w ++ s ++ v) := (hw.isPassed.append h.isPassed).append hv.isPassed

theorem Tree.Spells.trim_ne_nil (h : t.Spells s) (hw : Blanks w) (hv : Blanks v) :
    Text.trim (w ++ s ++ v) ≠ [] := by
  rw [h.isTrimmed.trim_eq hw hv]
  obtain ⟨c, cs, rfl, -⟩ := h.isTrimmed.1
  exact List.cons_ne_nil c cs

/-- The items of a group are cut off at the commas behind them. -/
theorem groupItems_cons (hs : IsPassed 0 s) (hne : Text.trim s ≠ []) :
    groupItems (s ++ ',' :: rest) = s :: groupItems rest := by
  rw [groupItems, hs 0 (Nat.le_refl 0), splitCommas_cons, if_pos ⟨rfl, rfl⟩, prepend, List.append_nil,
    List.filter_cons_of_pos (by simpa using hne)]
  rfl

theorem groupItems_last (hs : IsPassed 0 s) (hne : Text.trim s ≠ []) : groupItems s = [s] := by
  have hsplit := hs 0 (Nat.le_refl 0) []
  rw [List.append_nil] at hsplit
  rw [groupItems, hsplit, splitCommas, prepend, List.append_nil, List.filter_cons_of_pos (by simpa using hne)]
  rfl

theorem groupItems_blanks (hw : Blanks w) : groupItems w = [] := by
  have hsplit := hw.isPassed (n := 0) 0 (Nat.le_refl 0) []
  rw [List.append_nil] at hsplit
  rw [groupItems, hsplit, splitCommas, prepend, List.append_nil]
  simp [Text.trim_eq_nil hw]

/-! ## Paths -/

/-- The part of a path that a piece of its text stands for, if it is not blank. -/
def segment? (piece : List Char) : Option String :=
  if (Text.trim piece).isEmpty then none else some (String.ofList (Text.trim piece))

theorem segments_eq_filterMap : segments s = (segments.go (s.length + 1) s).filterMap segment? := rfl

theorem segments_go_of_not_mem (hs : ':' ∉ s) : segments.go n s = [s] := by
  cases n with
  | zero => rfl
  | succ n =>
    have hnone := Text.splitOnce_append_of_not_mem (w := [':']) (t := []) hs
    rw [List.append_nil] at hnone
    rw [segments.go, hnone]
    rfl

theorem segments_go_append (hs : ':' ∉ s) :
    segments.go (n + 1) (s ++ ':' :: ':' :: rest) = s :: segments.go n rest := by
  have hcut : Text.splitOnce [':', ':'] (':' :: ':' :: rest) = some ([], rest) :=
    Text.splitOnce_self_append (List.cons_ne_nil _ _)
  rw [segments.go, Text.splitOnce_append_of_not_mem hs, hcut]
  simp

/-- More cuts than a text is long change nothing. -/
theorem segments_go_congr {m : Nat} (hn : s.length < n) (hm : s.length < m) :
    segments.go n s = segments.go m s := by
  induction n generalizing m s with
  | zero => exact absurd hn (Nat.not_lt_zero _)
  | succ n ih =>
    obtain ⟨m, rfl⟩ := Nat.exists_eq_succ_of_ne_zero (Nat.ne_zero_of_lt hm)
    rw [segments.go, segments.go]
    split
    next before after hcut =>
      have hlength := congrArg List.length (Text.eq_append_of_splitOnce hcut)
      simp only [List.length_append, List.length_cons, List.length_nil] at hlength
      exact congrArg (before :: ·) (ih (by omega) (by omega))
    next => rfl

theorem segments_of_not_mem (hs : ':' ∉ s) : segments s = (segment? s).toList := by
  rw [segments_eq_filterMap, segments_go_of_not_mem hs, List.filterMap_cons]
  cases segment? s <;> rfl

theorem segments_append (hs : ':' ∉ s) :
    segments (s ++ ':' :: ':' :: rest) = (segment? s).toList ++ segments rest := by
  have hrest : segments.go (s ++ ':' :: ':' :: rest).length rest = segments.go (rest.length + 1) rest :=
    segments_go_congr (by simp; omega) (Nat.lt_succ_self _)
  rw [segments_eq_filterMap, segments_go_append hs, hrest, List.filterMap_cons, segments_eq_filterMap]
  cases segment? s <;> rfl

theorem segment?_of_isToken (htok : IsToken tok) (hw : Blanks w) (hv : Blanks v) :
    segment? (w ++ tok ++ v) = some (String.ofList tok) := by
  rw [segment?, htok.isTrimmed.trim_eq hw hv, if_neg (by simpa using htok.1)]

/-- The parts of a path are the words in front of its last part, and this. -/
theorem segments_scope (hs : SpellsScope scope s) (hv : Blanks v) (hu : ':' ∉ u) :
    segments (v ++ (s ++ u)) = texts scope ++ (segment? u).toList := by
  have hblank : Text.isBlank ':' = false := by decide
  induction hs generalizing v with
  | nil =>
    have htrim : segment? (v ++ u) = segment? u := by rw [segment?, segment?, Text.trim_blanks_append hv]
    rw [List.nil_append, segments_of_not_mem, htrim]
    · rfl
    · simp [hv.not_mem hblank, hu]
  | @cons word scope w v' s hw hv' hs ih =>
    have hpiece : ':' ∉ v ++ word.text.toList ++ w := by
      simp [hv.not_mem hblank, hw.not_mem hblank, word.isToken.not_mem (c := ':') (by decide)]
    have hassoc : v ++ (word.text.toList ++ w ++ ':' :: ':' :: (v' ++ s) ++ u) =
        v ++ word.text.toList ++ w ++ ':' :: ':' :: (v' ++ (s ++ u)) := by simp
    rw [hassoc, segments_append hpiece, segment?_of_isToken word.isToken hv hw, ih hv']
    simp [texts]

/-! ## Aliases -/

/-- What leads to an alias. -/
def aliasLead : List Char := [' ', 'a', 's', ' ']

/-- A text that goes on with a blank or a double colon, if at all. -/
def EndsToken (u : List Char) : Prop := ∀ c ∈ u.head?, Text.isBlank c = true ∨ c = ':'

/-- No token is the word that leads to an alias. -/
theorem dropLead?_aliasLead_of_isToken (htok : IsToken tok) (hu : EndsToken u) :
    Text.dropLead? aliasLead (' ' :: (tok ++ u)) = none := by
  rw [Option.eq_none_iff_forall_ne_some]
  intro rest hlead
  obtain ⟨hne, hall, has⟩ := htok
  have hcut : tok ++ u = 'a' :: 's' :: ' ' :: rest :=
    (List.cons.inj (Text.dropLead?_eq_some.1 hlead)).2
  -- The word would end inside the token, be the token, or go on behind it.
  match tok, hne with
  | [x], _ =>
    simp only [List.singleton_append, List.cons.injEq] at hcut
    obtain hs | hs := hu 's' (by simp [hcut.2])
    · exact absurd hs (by decide)
    · exact absurd hs (by decide)
  | [x, y], _ =>
    simp only [List.cons_append, List.cons.injEq] at hcut
    exact has (by rw [hcut.1, hcut.2.1])
  | x :: y :: z :: tok, _ =>
    simp only [List.cons_append, List.cons.injEq] at hcut
    have hz := (hall z (by simp)).1
    rw [hcut.2.2.1] at hz
    exact absurd hz (by decide)

/-- The search for an alias passes over blanks in front of what is none. -/
theorem splitOnce_aliasLead_of_blanks (hw : Blanks w)
    (hu : Text.dropLead? aliasLead (' ' :: u) = none) :
    Text.splitOnce aliasLead (w ++ u) =
      (Text.splitOnce aliasLead u).map fun (before, after) => (w ++ before, after) := by
  induction w with
  | nil => simp
  | cons c w ih =>
    rw [Blanks, List.forall_mem_cons] at hw
    have hlead : Text.dropLead? aliasLead (c :: (w ++ u)) = none := by
      rw [Option.eq_none_iff_forall_ne_some] at hu ⊢
      intro rest hlead
      obtain ⟨rfl, hcut⟩ := List.cons.inj (Text.dropLead?_eq_some.1 hlead)
      cases w with
      | nil => exact hu rest hlead
      | cons d w =>
        -- A blank is not the first letter of the word.
        have hd := hw.2 d List.mem_cons_self
        rw [(List.cons.inj hcut).1] at hd
        exact absurd hd (by decide)
    rw [List.cons_append, Text.splitOnce_cons_of_eq_none hlead, ih hw.2, Option.map_map]
    rfl

theorem splitOnce_aliasLead_of_isToken (htok : IsToken tok) :
    Text.splitOnce aliasLead (tok ++ u) =
      (Text.splitOnce aliasLead u).map fun (before, after) => (tok ++ before, after) :=
  Text.splitOnce_append_of_not_mem fun hmem => absurd (htok.isBlank hmem) (by decide)

/-- The search for an alias passes over a path. -/
theorem splitOnce_aliasLead_scope (hs : SpellsScope scope s) (hv : Blanks v) (htok : IsToken tok)
    (hu : EndsToken u) :
    Text.splitOnce aliasLead (v ++ (s ++ (tok ++ u))) =
      (Text.splitOnce aliasLead u).map fun (before, after) => (v ++ (s ++ (tok ++ before)), after) := by
  induction hs generalizing v with
  | nil =>
    rw [List.nil_append, splitOnce_aliasLead_of_blanks hv (dropLead?_aliasLead_of_isToken htok hu),
      splitOnce_aliasLead_of_isToken htok, Option.map_map]
    rfl
  | @cons word scope w v' s hw hv' hs ih =>
    have hcolons : ' ' ∉ [':', ':'] := by decide
    have hends : EndsToken (w ++ ([':', ':'] ++ (v' ++ (s ++ (tok ++ u))))) := by
      intro c hc
      cases w with
      | nil => exact .inr (Option.some.inj hc).symm
      | cons d w =>
        obtain rfl := Option.some.inj hc
        exact .inl (hw d List.mem_cons_self)
    have hassoc (x : List Char) : v ++ (word.text.toList ++ w ++ ':' :: ':' :: (v' ++ s) ++ (tok ++ x)) =
        v ++ (word.text.toList ++ (w ++ ([':', ':'] ++ (v' ++ (s ++ (tok ++ x)))))) := by simp
    rw [hassoc, splitOnce_aliasLead_of_blanks hv (dropLead?_aliasLead_of_isToken word.isToken hends),
      splitOnce_aliasLead_of_isToken word.isToken, splitOnce_aliasLead_of_blanks hw rfl,
      aliasLead, Text.splitOnce_append_of_not_mem hcolons, ← aliasLead, ih hv']
    simp [Option.map_map, Function.comp_def]

/-- The path of an item, and the name at its end: the alias, or the whole path where there is none. -/
theorem splitAlias_scope (newName : Option Name) (hs : SpellsScope scope s) (htok : IsToken tok) :
    splitAlias aliasLead (s ++ tok ++ aliasText newName) =
      (s ++ tok, (newName.map (·.text.toList)).getD (s ++ tok)) := by
  have hpath : Text.IsTrimmed (s ++ tok) := hs.isTrimmed_append htok.isTrimmed
  have hcut (u : List Char) (hu : EndsToken u) : Text.splitOnce aliasLead (s ++ tok ++ u) =
      (Text.splitOnce aliasLead u).map fun (before, after) => (s ++ tok ++ before, after) := by
    simpa using splitOnce_aliasLead_scope hs blanks_nil htok hu
  rw [splitAlias, (isTrimmed_aliasText hpath).trim_eq_self]
  cases newName with
  | none =>
    have hends : EndsToken [] := fun c hc => absurd hc (by simp)
    have hnone : Text.splitOnce aliasLead (s ++ tok) = none := by
      have hcut := hcut [] hends
      rwa [List.append_nil, show Text.splitOnce aliasLead [] = none from rfl, Option.map_none] at hcut
    simp [aliasText, hnone]
  | some n =>
    have hends : EndsToken (aliasLead ++ n.text.toList) := by
      intro c hc
      obtain rfl := Option.some.inj hc
      exact .inl (by decide)
    have hsome : Text.splitOnce aliasLead (aliasLead ++ n.text.toList) = some ([], n.text.toList) :=
      Text.splitOnce_self_append (List.cons_ne_nil _ _)
    have hname : aliasText (some n) = aliasLead ++ n.text.toList := rfl
    have hne : n.text.toList ≠ [] := n.isToken.1
    rw [hname, hcut _ hends, hsome]
    simp [n.isToken.isTrimmed.trim_eq_self, hpath.trim_eq_self, List.isEmpty_iff, hne]

theorem segments_path (hs : SpellsScope scope s) (htok : IsToken tok) :
    segments (s ++ tok) = texts scope ++ [String.ofList tok] := by
  have hpath := segments_scope hs blanks_nil (htok.not_mem (c := ':') (by decide))
  have htoken := segment?_of_isToken htok blanks_nil blanks_nil
  simp only [List.nil_append, List.append_nil] at hpath htoken
  rw [hpath, htoken]
  rfl

/-! ## Leaves -/

theorem Word.ne_glob (word : Word) : word.text ≠ "*" := by
  intro h
  exact word.not_glob (by simp [h])

/-- An alias that reads like its path is the whole path. -/
theorem eq_of_toList_eq {name : Name} (hs : SpellsScope scope s)
    (h : name.text.toList = s ++ last.text.toList) : name.text = last.text := by
  cases hs with
  | nil => exact String.toList_inj.1 h
  | cons =>
    have hcolon : ':' ∉ name.text.toList := name.isToken.not_mem (by decide)
    exact absurd (h ▸ by simp) hcolon

theorem leaf?_of_ne_self {above front : List String} {last : String} {item path name : List Char}
    (halias : splitAlias aliasLead item = (path, name)) (hpath : segments path = front ++ [last])
    (hself : last ≠ "self") :
    leaf? above item =
      if last == "*" then none
      else some ⟨above ++ front ++ [last], if name == path then last else String.ofList name⟩ := by
  have hlast : (above ++ front ++ [last]).getLast? = some last := by simp
  rw [leaf?, ← aliasLead, halias]
  dsimp only
  rw [hpath, ← List.append_assoc, if_neg (by simpa using hself), hlast]

theorem leaf?_path (hs : SpellsScope scope s) :
    leaf? (texts base) (s ++ last.text.toList ++ aliasText newName) =
      some ⟨texts (base ++ scope ++ [last.toWord]), (newName.getD last).text⟩ := by
  have halias := splitAlias_scope newName hs last.isToken
  have hpath := segments_path hs last.isToken
  rw [String.ofList_toList] at hpath
  rw [leaf?_of_ne_self halias hpath last.ne_self, if_neg (by simpa using last.ne_glob)]
  have hfull : texts base ++ texts scope ++ [last.text] = texts (base ++ scope ++ [last.toWord]) := by
    simp [texts]
  rw [hfull]
  cases newName with
  | none => simp
  | some n =>
    by_cases heq : n.text.toList = s ++ last.text.toList
    · simp [eq_of_toList_eq hs heq]
    · simp [heq]

theorem leaf?_glob (hs : SpellsScope scope s) : leaf? (texts base) (s ++ ['*']) = none := by
  have halias := splitAlias_scope none hs isToken_glob
  rw [aliasText, List.append_nil] at halias
  rw [leaf?_of_ne_self halias (segments_path hs isToken_glob) (by decide), if_pos (by decide)]

/-- The last word of the path is dropped again, so that the path is the one of the groups. -/
theorem leaf?_self :
    leaf? (texts base) (['s', 'e', 'l', 'f'] ++ aliasText newName) =
      base.getLast?.map fun last => ⟨texts base, ((newName.map (·.toWord)).getD last).text⟩ := by
  have halias := splitAlias_scope newName .nil isToken_self
  have hpath := segments_path .nil isToken_self
  rw [List.nil_append] at halias hpath
  have hlast : (texts base ++ ["self"]).getLast? = some "self" := by simp
  rw [leaf?, ← aliasLead, halias]
  dsimp only
  rw [hpath, show texts [] ++ [String.ofList ['s', 'e', 'l', 'f']] = ["self"] from rfl, hlast,
    if_pos (by decide), List.dropLast_concat, texts, List.getLast?_map, ← texts]
  cases base.getLast? with
  | none => rfl
  | some word =>
    rw [Option.map_some, Option.map_some]
    dsimp only
    rw [if_neg (by simpa using word.ne_glob)]
    cases newName with
    | none => simp
    | some n =>
      have hne : n.text.toList ≠ ['s', 'e', 'l', 'f'] := by
        intro heq
        exact n.ne_self (String.toList_inj.1 heq)
      simp [hne]

/-! ## Trees -/

theorem not_mem_aliasText (hc : c = '{' ∨ c = '}') : c ∉ aliasText newName := by
  cases newName with
  | none => exact List.not_mem_nil
  | some n =>
    have hname : c ∉ n.text.toList := n.isToken.not_mem (by obtain rfl | rfl := hc <;> decide)
    obtain rfl | rfl := hc <;> simpa [aliasText] using hname

/-- A path without a group has no braces. -/
theorem not_mem_brace (hs : SpellsScope scope s) (htok : IsToken tok) :
    '{' ∉ s ++ tok ++ aliasText newName := by
  have hscope : '{' ∉ s := hs.not_mem (by decide)
  have htoken : '{' ∉ tok := htok.not_mem (by decide)
  simp [hscope, htoken, not_mem_aliasText]

theorem expandBelow_of_leaf (newName : Option Name) (hs : SpellsScope scope s) (htok : IsToken tok)
    (hu : u = s ++ tok ++ aliasText newName) (hw : Blanks w) (hv : Blanks v) :
    expandBelow (texts base) (w ++ u ++ v) = .ok (leaf? (texts base) u).toList := by
  have htrim : Text.trim (w ++ u ++ v) = u := by
    rw [hu]
    exact (isTrimmed_aliasText (hs.isTrimmed_append htok.isTrimmed)).trim_eq hw hv
  rw [expandBelow_of_plain, htrim]
  rw [htrim, hu]
  exact .inl (not_mem_brace hs htok)

mutual

theorem Tree.Spells.expandBelow_eq : {t : Tree} → {s : List Char} → t.Spells s → (base : List Word) →
    {w v : List Char} → Blanks w → Blanks v →
      expandBelow (texts base) (w ++ s ++ v) = .ok (t.leaves base)
  | .path scope last newName, _, .path hs, base, w, v, hw, hv => by
    rw [expandBelow_of_leaf newName hs last.isToken rfl hw hv, leaf?_path hs, Tree.leaves]
    rfl
  | .self newName, _, .self, base, w, v, hw, hv => by
    rw [expandBelow_of_leaf newName .nil isToken_self (List.nil_append _ ▸ rfl) hw hv, leaf?_self,
      Tree.leaves]
    cases base.getLast? <;> rfl
  | .glob scope, _, .glob hs, base, w, v, hw, hv => by
    rw [expandBelow_of_leaf none hs isToken_glob (by simp [aliasText]) hw hv, leaf?_glob hs, Tree.leaves]
    rfl
  | .group scope items, _, @Tree.Spells.group _ _ s inside hs hinside, base, w, v, hw, hv => by
    have htrim := (Tree.Spells.group hs hinside).isTrimmed.trim_eq hw hv
    have hgroup : IsGroup (Text.trim (w ++ (s ++ '{' :: (inside ++ ['}'])) ++ v)) s inside :=
      ⟨[], htrim, hs.not_mem (by decide), List.not_mem_nil⟩
    have hscope : segments s = texts scope := by
      have hpath := segments_scope (u := []) hs blanks_nil List.not_mem_nil
      simpa [segment?, Text.trim_eq_nil] using hpath
    rw [expandBelow_of_group hgroup, hscope, Tree.leaves]
    have hitems := hinside.collect_eq (base ++ scope)
    rwa [texts, List.map_append] at hitems

theorem Tree.SpellsItems.collect_eq : {ts : List Tree} → {inside : List Char} →
    Tree.SpellsItems ts inside → (base : List Word) →
      collect (expandBelow (texts base)) (groupItems inside) = .ok (Tree.allLeaves base ts)
  | _, _, .nil hw, base => by
    rw [groupItems_blanks hw, Tree.allLeaves]
    rfl
  | _, _, .last hw ht hv, base => by
    rw [groupItems_last (ht.isPassed_blanks hw hv) (ht.trim_ne_nil hw hv), collect,
      ht.expandBelow_eq base hw hv, Tree.allLeaves]
    rfl
  | _, _, .cons hw ht hv hrest, base => by
    rw [groupItems_cons (ht.isPassed_blanks hw hv) (ht.trim_ne_nil hw hv), collect,
      ht.expandBelow_eq base hw hv, hrest.collect_eq base, Tree.allLeaves]

end

/-- Every use tree has a text, and whatever blanks a text of it has, the leaves of the tree are read from
it in order, each once: the words of the groups around a leaf and its own, bound to its alias or else to
the last of them. A glob stands for none, and `self` for the words of the groups around it. -/
theorem expand_of_spells (t : Tree) :
    t.Spells t.print ∧
      ∀ s w v, t.Spells s → Blanks w → Blanks v → expand (w ++ s ++ v) = .ok (t.leaves []) :=
  ⟨t.spells_print, fun _ _ _ h hw hv => h.expandBelow_eq [] hw hv⟩

/-- A group in a group, with an alias, a glob, a comma behind the last item, and blanks. -/
theorem expand_of_spells_of_nested :
    expand "crate ::a::\x7b self as b,\n c::\x7bd, e::*,\x7d \x7d ".toList =
      .ok [⟨["crate", "a"], "b"⟩, ⟨["crate", "a", "c", "d"], "d"⟩] := by
  let crate : Word := .ofIdentifier "crate" (by decide) (by decide)
  let a : Word := .ofIdentifier "a" (by decide) (by decide)
  let b : Name := ⟨.ofIdentifier "b" (by decide) (by decide), by decide⟩
  let c : Word := .ofIdentifier "c" (by decide) (by decide)
  let d : Name := ⟨.ofIdentifier "d" (by decide) (by decide), by decide⟩
  let e : Word := .ofIdentifier "e" (by decide) (by decide)
  have hspace : Blanks [' '] := by decide
  have hglob : Tree.Spells (.glob [e]) _ := .glob (.cons blanks_nil blanks_nil .nil)
  have hinner : Tree.SpellsItems [.path [] d none, .glob [e]] _ :=
    .cons blanks_nil (.path .nil) blanks_nil (.cons hspace hglob blanks_nil (.nil blanks_nil))
  have hgroup : Tree.Spells (.group [c] [.path [] d none, .glob [e]]) _ :=
    .group (.cons blanks_nil blanks_nil .nil) hinner
  have houter : Tree.SpellsItems [.self (some b), .group [c] [.path [] d none, .glob [e]]] _ :=
    .cons hspace .self blanks_nil (.last (w := ['\n', ' ']) (by decide) hgroup hspace)
  have htree : Tree.Spells (.group [crate, a] [.self (some b), .group [c] [.path [] d none, .glob [e]]]) _ :=
    .group (.cons hspace blanks_nil (.cons blanks_nil blanks_nil .nil)) houter
  have hread := (expand_of_spells _).2 _ [] [' '] htree blanks_nil hspace
  exact (congrArg expand (by decide +kernel)).trans hread

end Flowgraph.Imports.UseTree

import Flowgraph.Proofs.Call.Normalization
import Mathlib.Data.List.Infix

/-!
# What callees are stripped of

Generics, blanks and exclamation marks leave no trace in a normalized call, and neither do the calls in
front of its last two identifiers. Opening angle brackets are all taken for generics, though: one that
never closes, as a comparison among the arguments of an earlier call has it, takes with it all that
follows.
-/

namespace Flowgraph

namespace Call

variable {raw call x m f : String} {s t g : List Char} {segs : List (List Char)} {c d : Char} {j k : Nat}

/-! ## Characters one by one -/

/-- A character that a callee may hold anywhere: a blank or an exclamation mark. -/
def isLayout (c : Char) : Bool := Text.isBlank c || c == '!'

/-- The number of angle brackets open behind `c`, where `k` are open in front of it. A closing one
without an opening one closes nothing. -/
def afterAngle (k : Nat) (c : Char) : Nat := if c = '<' then k + 1 else if c = '>' then k - 1 else k

/-- What is kept of `c` where `k` angle brackets are open. -/
def keep (k : Nat) (c : Char) : List Char :=
  if k = 0 ∧ c ≠ '<' ∧ isLayout c = false then [c] else []

theorem strip_cons : strip k (c :: s) = keep k c ++ strip (afterAngle k c) s := by
  rw [strip]
  by_cases hopen : c = '<'
  · simp [keep, afterAngle, hopen]
  by_cases hclose : c = '>'
  · subst hclose
    cases k with
    | zero => simp [keep, afterAngle, show isLayout '>' = false by decide, show Text.isBlank '>' = false by decide]
    | succ k => simp [keep, afterAngle]
  have hafter : afterAngle k c = k := by rw [afterAngle, if_neg hopen, if_neg hclose]
  cases k with
  | succ k => simp [keep, hopen, hclose, hafter]
  | zero =>
    rw [hafter, keep, isLayout]
    cases Text.isBlank c || c == '!' <;> simp [hopen]

/-- The number of angle brackets open behind `s`, where `k` are open in front of it. -/
def openAngles (k : Nat) (s : List Char) : Nat := s.foldl afterAngle k

theorem openAngles_append : openAngles k (s ++ t) = openAngles (openAngles k s) t := List.foldl_append

theorem strip_append : strip k (s ++ t) = strip k s ++ strip (openAngles k s) t := by
  induction s generalizing k with
  | nil => rfl
  | cons c cs ih =>
    rw [List.cons_append, strip_cons, strip_cons, ih, List.append_assoc]
    rfl

/-- Two texts that differ in blanks and exclamation marks alone are stripped alike. -/
theorem strip_filter_isLayout : strip k (s.filter (!isLayout ·)) = strip k s := by
  induction s generalizing k with
  | nil => rfl
  | cons c cs ih =>
    rw [strip_cons, List.filter_cons]
    cases hlayout : isLayout c with
    | false => rw [Bool.not_false, if_pos rfl, strip_cons, ih]
    | true =>
      have hkeep : keep k c = [] := by simp [keep, hlayout]
      have hopen : c ≠ '<' := by rintro rfl; exact absurd hlayout (by decide)
      have hclose : c ≠ '>' := by rintro rfl; exact absurd hlayout (by decide)
      rw [hkeep, afterAngle, if_neg hopen, if_neg hclose, List.nil_append, ← ih]
      rfl

/-! ## Angle brackets -/

/-- No end of the text opens more angle brackets than it closes. -/
def ClosesAngles (s : List Char) : Prop := ∀ t ∈ s.tails, t.count '<' ≤ t.count '>'

instance : Decidable (ClosesAngles s) :=
  inferInstanceAs (Decidable (∀ t ∈ s.tails, t.count '<' ≤ t.count '>'))

/-- The angle brackets pair up, and none closes before it is opened. -/
def IsBalanced (s : List Char) : Prop :=
  s.count '<' = s.count '>' ∧ ∀ t ∈ s.inits, t.count '>' ≤ t.count '<'

instance : Decidable (IsBalanced s) :=
  inferInstanceAs (Decidable (_ ∧ ∀ t ∈ s.inits, t.count '>' ≤ t.count '<'))

/-- At most `j` brackets are open behind a text if no end of it opens more than `j` more than it closes,
the ones in front of the text counted in for the whole of it. -/
theorem openAngles_le_iff :
    openAngles k s ≤ j ↔
      k + s.count '<' ≤ s.count '>' + j ∧ ∀ t ∈ s.tails, t.count '<' ≤ t.count '>' + j := by
  induction s generalizing k with
  | nil => simp [openAngles]
  | cons c cs ih =>
    have hself : cs ∈ cs.tails := (List.mem_tails cs cs).2 (List.suffix_refl cs)
    rw [openAngles, List.foldl_cons, ← openAngles, ih, List.tails_cons, List.forall_mem_cons,
      List.count_cons, List.count_cons, afterAngle]
    by_cases hopen : c = '<'
    · subst hopen
      simp only [if_true, beq_self_eq_true, show ('<' == '>') = false by decide]
      grind
    by_cases hclose : c = '>'
    · subst hclose
      simp only [if_true, beq_self_eq_true, show ('>' == '<') = false by decide]
      grind
    · simp only [if_neg hopen, if_neg hclose, beq_eq_false_iff_ne.2 hopen, beq_eq_false_iff_ne.2 hclose]
      grind

theorem openAngles_eq_zero_iff : openAngles 0 s = 0 ↔ ClosesAngles s := by
  rw [← Nat.le_zero, openAngles_le_iff]
  simp only [Nat.zero_add, Nat.add_zero]
  exact and_iff_right_of_imp fun htails => htails s ((List.mem_tails s s).2 (List.suffix_refl s))

theorem afterAngle_succ : afterAngle (k + 1) c + [c].count '>' = k + 1 + [c].count '<' := by
  rw [afterAngle, List.count_singleton, List.count_singleton]
  grind

/-- Behind an opening bracket nothing is kept as long as it does not close. -/
theorem strip_of_inside (hs : ∀ t ∈ s.inits, t.count '>' ≤ t.count '<' + k) :
    strip (k + 1) s = [] ∧ openAngles (k + 1) s + s.count '>' = k + 1 + s.count '<' := by
  induction s generalizing k with
  | nil => simp [strip, openAngles]
  | cons c cs ih =>
    rw [List.inits_cons, List.forall_mem_cons] at hs
    have hcount (a : Char) (t : List Char) : (c :: t).count a = [c].count a + t.count a := by
      rw [← List.singleton_append, List.count_append]
    have hstep := afterAngle_succ (k := k) (c := c)
    have hfirst : [c].count '>' ≤ [c].count '<' + k := hs.2 [c] (by simp)
    -- The bracket in front is still open behind the first character.
    obtain ⟨n, hn⟩ : ∃ n, afterAngle (k + 1) c = n + 1 := Nat.exists_eq_succ_of_ne_zero (by omega)
    have hkeep : keep (k + 1) c = [] := by simp [keep]
    have hrest : ∀ t ∈ cs.inits, t.count '>' ≤ t.count '<' + n := by
      intro t ht
      have hcons := hs.2 (c :: t) (List.mem_map_of_mem ht)
      rw [hcount '>' t, hcount '<' t] at hcons
      omega
    obtain ⟨hnothing, hopen⟩ := ih hrest
    rw [strip_cons, hkeep, hn, openAngles, List.foldl_cons, hn, ← openAngles,
      hcount '>' cs, hcount '<' cs]
    exact ⟨hnothing, by omega⟩

/-- Generics are stripped, whatever the brackets around them. -/
theorem strip_generics (hg : IsBalanced g) :
    strip 0 (s ++ '<' :: (g ++ '>' :: t)) = strip 0 (s ++ t) := by
  obtain ⟨hcount, hinits⟩ := hg
  generalize hk : openAngles 0 s = k
  obtain ⟨hnothing, hopen⟩ := strip_of_inside (s := g) (k := k) fun t ht =>
    (hinits t ht).trans (Nat.le_add_right _ _)
  have hback : openAngles (k + 1) g = k + 1 := by omega
  rw [strip_append, strip_append, hk, strip_cons, show afterAngle k '<' = k + 1 from rfl, strip_append,
    hnothing, hback, strip_cons, show afterAngle (k + 1) '>' = k from rfl]
  simp [keep]

/-- Nothing is kept behind a bracket that does not close. -/
theorem strip_append_of_open (hs : ¬ClosesAngles s) (ht : '>' ∉ t) : strip 0 (s ++ t) = strip 0 s := by
  obtain ⟨k, hk⟩ := Nat.exists_eq_succ_of_ne_zero (mt openAngles_eq_zero_iff.1 hs)
  have hinside := (strip_of_inside (s := t) (k := k) fun u hu => by
    have : u.count '>' = 0 := List.count_eq_zero.2 fun h => ht (((List.mem_inits u t).1 hu).subset h)
    omega).1
  rw [strip_append, hk, hinside, List.append_nil]

/-! ## Segments -/

theorem isIdentifier_append_singleton (hc : isIdentifierPart c = false) :
    isIdentifier (s ++ [c]) = false :=
  Bool.eq_false_iff.2 fun h => not_mem_of_isIdentifier h hc (by simp)

/-- The segment in front of a dot ends with the bracket in front of the dot. -/
theorem exists_segments_append (hc : c = ')' ∨ c = ']') :
    ∃ before last, segments (s ++ c :: '.' :: t) = before ++ (last ++ [c]) :: segments t := by
  have hsign : c ≠ '?' ∧ c ≠ '.' ∧ c ≠ ':' := by obtain rfl | rfl := hc <;> decide
  have hdots (u : List Char) : segments u =
      (Text.splitOn '.' (Text.replacePair ':' ':' '.' (Text.replacePair '?' '.' '.' u))).filter
        (!·.isEmpty) := rfl
  rw [hdots, Text.replacePair_append_cons hsign.1 hsign.2.1,
    Text.replacePair_cons_of_ne (c := '.') (by decide),
    Text.replacePair_append_cons hsign.2.2 hsign.2.2,
    Text.replacePair_cons_of_ne (c := '.') (by decide), List.append_cons (b := c), Text.splitOn,
    Text.splitWhere_append (by decide), List.filter_append, ← Text.splitOn, ← Text.splitOn, ← hdots]
  obtain ⟨before, last, hlast⟩ := Text.exists_splitWhere_append_singleton
    (p := (· == '.')) (c := c) (by simp [hsign])
  rw [Text.splitOn, hlast]
  exact ⟨before.filter (!·.isEmpty), last, by simp⟩

/-- Identifiers behind a call or an index expression are what a callee ends with. -/
theorem trailing_append (hs : s.getLast? = some ')' ∨ s.getLast? = some ']') (hclose : ClosesAngles s)
    (hsegs : ∀ t ∈ segs, isIdentifier t = true) :
    trailing (String.ofList (s ++ '.' :: (dotted segs).toList)) = segs := by
  obtain ⟨c, hc, hlast⟩ : ∃ c, (c = ')' ∨ c = ']') ∧ s.getLast? = some c := by
    obtain h | h := hs
    · exact ⟨_, .inl rfl, h⟩
    · exact ⟨_, .inr rfl, h⟩
  obtain ⟨s, rfl⟩ := List.getLast?_eq_some_iff.1 hlast
  have hafter (k : Nat) : afterAngle k c = k := by obtain rfl | rfl := hc <;> rfl
  have hkeep : keep 0 c = [c] := by obtain rfl | rfl := hc <;> decide
  have hopen : openAngles 0 s = 0 := by
    have hall := openAngles_eq_zero_iff.2 hclose
    rwa [openAngles_append, openAngles, List.foldl_cons, List.foldl_nil, hafter] at hall
  have hstrip : strip 0 (s ++ [c] ++ '.' :: (dotted segs).toList) =
      strip 0 s ++ c :: '.' :: (dotted segs).toList := by
    rw [List.append_assoc, List.singleton_append, strip_append, hopen, strip_cons, hkeep, hafter,
      strip_cons, show keep 0 '.' = ['.'] by decide, show afterAngle 0 '.' = 0 from rfl,
      strip_dotted hsegs]
    rfl
  have hpart : isIdentifierPart c = false := by obtain rfl | rfl := hc <;> decide
  obtain ⟨before, last, hsegments⟩ := exists_segments_append (s := strip 0 s)
    (t := (dotted segs).toList) hc
  have hall : ∀ t ∈ segs.reverse, isIdentifier t = true := by simpa using hsegs
  rw [trailing, String.toList_ofList, hstrip, hsegments, segments_dotted hsegs, List.reverse_append,
    List.reverse_cons, List.append_assoc, List.takeWhile_append_of_pos hall, List.singleton_append,
    List.takeWhile_cons_of_neg (by simp [isIdentifier_append_singleton hpart]), List.append_nil,
    List.reverse_reverse]

/-! ## Calls -/

theorem normalize_congr_strip (h : strip 0 raw.toList = strip 0 call.toList) :
    normalize raw = normalize call := by
  rw [normalize, normalize, h]

/-- The module and the function at the end of a chain of calls are recorded, unless an angle bracket
that is open in front of them takes them away. The chain is then recorded as if it ended before them. -/
theorem normalize_chained (hx : x.toList.getLast? = some ')' ∨ x.toList.getLast? = some ']')
    (hm : isIdentifier m.toList = true) (hself : m ∉ selfReceivers)
    (hf : isIdentifier f.toList = true) (hkey : f ∉ keywords) :
    normalize (x ++ "." ++ m ++ "." ++ f) =
      if ClosesAngles x.toList then some (m ++ "." ++ f) else normalize x := by
  have hsegs : ∀ s ∈ [m.toList, f.toList], isIdentifier s = true := by simp [hm, hf]
  have hcall : m ++ "." ++ f = dotted [m.toList, f.toList] := by
    rw [dotted_pair, ← String.toList_inj]
    simp
  have hwhole : x ++ "." ++ m ++ "." ++ f =
      String.ofList (x.toList ++ '.' :: (dotted [m.toList, f.toList]).toList) := by
    rw [← hcall, ← String.toList_inj]
    simp
  split
  case isTrue hclose =>
    have hkept : kept (x ++ "." ++ m ++ "." ++ f) = [] ++ [m.toList, f.toList] := by
      rw [hwhole, kept, trailing_append hx hclose hsegs]
      simp [isSelf, hself]
    rw [normalize_of_pair hkept, hcall]
    simp [isKeyword, hkey]
  case isFalse hopen =>
    refine normalize_congr_strip ?_
    have hclosing : '>' ∉ (dotted [m.toList, f.toList]).toList := not_mem_dotted hsegs (by decide)
    rw [hwhole, String.toList_ofList, strip_append_of_open hopen]
    exact List.not_mem_cons_of_ne_of_not_mem (by decide) hclosing

theorem normalize_chained_of_arrow :
    ClosesAngles "items.map(x => x.id)[0]".toList ∧
      normalize ("items.map(x => x.id)[0]" ++ "." ++ "chat" ++ "." ++ "create") =
        some ("chat" ++ "." ++ "create") := by
  have hclose : ClosesAngles "items.map(x => x.id)[0]".toList := by decide
  refine ⟨hclose, ?_⟩
  rw [normalize_chained (.inr (by decide)) (by decide) (by decide) (by decide) (by decide),
    if_pos hclose]

theorem exists_chained_not_recorded :
    ∃ x m f : String, x.toList.getLast? = some ')' ∧ isIdentifier m.toList = true ∧ m ∉ selfReceivers ∧
      isIdentifier f.toList = true ∧ f ∉ keywords ∧
      normalize (x ++ "." ++ m ++ "." ++ f) ≠ some (m ++ "." ++ f) :=
  ⟨"check(a < b)", "chat", "create", by decide⟩

/-- Generics, blanks and exclamation marks are ignored wherever they stand, and what is recorded is an
identifier that is no keyword, alone or behind a module, as splitting tells them apart again. -/
theorem normalize_ignores_and_parts :
    (∀ u g v : String, IsBalanced g.toList →
      normalize (u ++ "<" ++ g ++ ">" ++ v) = normalize (u ++ v)) ∧
    (∀ raw raw' : String,
      raw.toList.filter (!isLayout ·) = raw'.toList.filter (!isLayout ·) →
        normalize raw = normalize raw') ∧
    ∀ raw call : String, normalize raw = some call →
      ∃ f : String, isIdentifier f.toList = true ∧ f ∉ keywords ∧
        (call = f ∧ split call = (none, f) ∨
          ∃ m : String, isIdentifier m.toList = true ∧ call = m ++ "." ++ f ∧
            split call = (some m, f)) := by
  refine ⟨?generics, ?layout, ?parts⟩
  case generics =>
    intro u g v hg
    refine normalize_congr_strip ?_
    have hstrip := strip_generics (s := u.toList) (t := v.toList) hg
    simpa using hstrip
  case layout =>
    intro raw raw' heq
    refine normalize_congr_strip ?_
    rw [← strip_filter_isLayout, heq, strip_filter_isLayout]
  case parts =>
    intro raw call h
    obtain ⟨f, hkept, hkey, rfl⟩ | ⟨before, m, f, hkept, hkey, rfl⟩ := normalize_eq_some_iff.1 h
    · have hf : isIdentifier f = true := isIdentifier_of_kept_eq hkept (by simp)
      exact ⟨String.ofList f, by simpa using hf, by simpa [isKeyword] using hkey,
        .inl ⟨dotted_singleton, split_dotted_singleton hf⟩⟩
    · have hm : isIdentifier m = true := isIdentifier_of_kept_eq hkept (by simp)
      have hf : isIdentifier f = true := isIdentifier_of_kept_eq hkept (by simp)
      refine ⟨String.ofList f, by simpa using hf, by simpa [isKeyword] using hkey,
        .inr ⟨String.ofList m, by simpa using hm, ?_, split_dotted_pair hm⟩⟩
      rw [dotted_pair, ← String.toList_inj]
      simp

theorem normalize_ignores_and_parts_of_turbofish :
    IsBalanced "Map<u8, u8>".toList ∧
      normalize ("Vec::" ++ "<" ++ "Map<u8, u8>" ++ ">" ++ "::new") = normalize ("Vec::" ++ "::new") ∧
      normalize " Vec :: new !" = normalize "Vec::new" ∧
      ∃ f : String, isIdentifier f.toList = true ∧ f ∉ keywords ∧
        ("Vec.new" = f ∧ split "Vec.new" = (none, f) ∨
          ∃ m : String, isIdentifier m.toList = true ∧ "Vec.new" = m ++ "." ++ f ∧
            split "Vec.new" = (some m, f)) := by
  obtain ⟨hgenerics, hlayout, hparts⟩ := normalize_ignores_and_parts
  have hbalanced : IsBalanced "Map<u8, u8>".toList := by decide
  exact ⟨hbalanced, hgenerics _ _ _ hbalanced, hlayout _ _ (by decide),
    hparts "Vec::new" "Vec.new" (by decide)⟩

end Call

end Flowgraph

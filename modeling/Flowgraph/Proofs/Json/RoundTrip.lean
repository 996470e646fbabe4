import Flowgraph.Json.Parser
import Flowgraph.Json.Printer
import Mathlib.Data.List.Basic

/-!
# Reading back what has been printed

A printed value is read back as the same value, whatever characters its texts are made of. The reader
never runs out of fuel on it.
-/

namespace Flowgraph.Json

/-! ## Texts -/

theorem hexUnit?_hexDigit {n : Nat} (hn : n < 32) :
    hexUnit? '0' '0' (Text.hexDigit (n / 16)) (Text.hexDigit (n % 16)) = some n := by
  decide +revert

/-- A unit that is no surrogate stands for a character by itself. -/
theorem joinPieces?_unit {n : Nat} (hhigh : isHighSurrogate n = false) (hlow : isLowSurrogate n = false)
    (ps : List TextPiece) :
    joinPieces? (.unit n :: ps) = (joinPieces? ps).map (Char.ofNat n :: ·) := by
  rcases ps with _ | ⟨_ | _, ps⟩ <;> simp [joinPieces?, hhigh, hlow]

theorem parsePieces?_escaped {c e : Char} (hu : c ≠ 'u') (he : escapedChar? c = some e)
    (s : List Char) :
    parsePieces? ('\\' :: c :: s) = (parsePieces? s).map fun r => (.char e :: r.1, r.2) := by
  simp [parsePieces?, hu, he]

theorem parsePieces?_plain {c : Char} (hquote : c ≠ '"') (hescape : c ≠ '\\') (hc : ¬ c.toNat < 32)
    (s : List Char) :
    parsePieces? (c :: s) = (parsePieces? s).map fun r => (.char c :: r.1, r.2) := by
  simp [parsePieces?, hescape, hc]

/-- A character is escaped by one letter, escaped by four digits, or written as it is. -/
theorem escapeChar_cases (c : Char) :
    (∃ e, e ≠ 'u' ∧ escapedChar? e = some c ∧ escapeChar c = ['\\', e]) ∨
    (c.toNat < 32 ∧ escapeChar c =
      ['\\', 'u', '0', '0', Text.hexDigit (c.toNat / 16), Text.hexDigit (c.toNat % 16)]) ∨
    (c ≠ '"' ∧ c ≠ '\\' ∧ ¬ c.toNat < 32 ∧ escapeChar c = [c]) := by
  by_cases hshort : c ∈ ['"', '\\', '\x08', '\x0c', '\n', '\r', '\t']
  · left
    simp only [List.mem_cons, List.not_mem_nil, or_false] at hshort
    rcases hshort with rfl | rfl | rfl | rfl | rfl | rfl | rfl
    · exact ⟨'"', by decide, rfl, rfl⟩
    · exact ⟨'\\', by decide, rfl, rfl⟩
    · exact ⟨'b', by decide, rfl, rfl⟩
    · exact ⟨'f', by decide, rfl, rfl⟩
    · exact ⟨'n', by decide, rfl, rfl⟩
    · exact ⟨'r', by decide, rfl, rfl⟩
    · exact ⟨'t', by decide, rfl, rfl⟩
  · right
    simp only [List.mem_cons, List.not_mem_nil, or_false, not_or] at hshort
    by_cases hcontrol : c.toNat < 32
    · exact .inl ⟨hcontrol, by simp [escapeChar, hshort, hcontrol]⟩
    · exact .inr ⟨hshort.1, hshort.2.1, hcontrol, by simp [escapeChar, hshort, hcontrol]⟩

/-- The escape of a character is read as one piece, which stands for the character. -/
theorem exists_piece (c : Char) :
    ∃ piece, (∀ s, parsePieces? (escapeChar c ++ s) =
        (parsePieces? s).map fun r => (piece :: r.1, r.2)) ∧
      ∀ ps, joinPieces? (piece :: ps) = (joinPieces? ps).map (c :: ·) := by
  rcases escapeChar_cases c with
    ⟨e, hu, he, hescape⟩ | ⟨hcontrol, hescape⟩ | ⟨hquote, hslash, hcontrol, hescape⟩
  · exact ⟨.char c, fun s => hescape ▸ parsePieces?_escaped hu he s, fun _ => rfl⟩
  · refine ⟨.unit c.toNat, fun s => ?_, fun ps => ?_⟩
    · simp [hescape, parsePieces?, hexUnit?_hexDigit hcontrol]
    · have hhigh : isHighSurrogate c.toNat = false := by simp [isHighSurrogate]; omega
      have hlow : isLowSurrogate c.toNat = false := by simp [isLowSurrogate]; omega
      rw [joinPieces?_unit hhigh hlow, Char.ofNat_toNat]
  · exact ⟨.char c, fun s => hescape ▸ parsePieces?_plain hquote hslash hcontrol s, fun _ => rfl⟩

theorem exists_pieces (s rest : List Char) :
    ∃ pieces, parsePieces? (s.flatMap escapeChar ++ '"' :: rest) = some (pieces, rest) ∧
      joinPieces? pieces = some s := by
  induction s with
  | nil => exact ⟨[], by simp [parsePieces?], rfl⟩
  | cons c s ih =>
    obtain ⟨piece, hparse, hjoin⟩ := exists_piece c
    obtain ⟨pieces, hpieces, hs⟩ := ih
    refine ⟨piece :: pieces, ?_, ?_⟩
    · rw [List.flatMap_cons, List.append_assoc, hparse, hpieces]
      rfl
    · rw [hjoin, hs]
      rfl

/-- A text is read back from between its quotes. -/
theorem parseString?_quoteText (s : String) (rest : List Char) :
    ∃ cs, quoteText (some s) ++ rest = '"' :: cs ∧ parseString? cs = some (some s, rest) := by
  obtain ⟨pieces, hparse, hjoin⟩ := exists_pieces s.toList rest
  refine ⟨s.toList.flatMap escapeChar ++ '"' :: rest, by simp [quoteText, quote], ?_⟩
  simp [parseString?, hparse, hjoin]

/-! ## Numbers -/

/-- What can stand behind a printed value: nothing, the comma before the next one or a line break. -/
inductive IsBehindValue : List Char → Prop
  | nil : IsBehindValue []
  | comma (s : List Char) : IsBehindValue (',' :: s)
  | newLine (s : List Char) : IsBehindValue ('\n' :: s)

/-- What holds of the ten digits holds of the digits of a number. -/
theorem of_mem_toDigits {p : Char → Prop} (hp : ∀ d < 10, p d.digitChar) {n : Nat} {c : Char}
    (hc : c ∈ Nat.toDigits 10 n) : p c := by
  induction n using Nat.strongRecOn with
  | ind n ih =>
    rw [Nat.toDigits_eq_if (by decide)] at hc
    split at hc
    next hn => exact List.mem_singleton.mp hc ▸ hp n hn
    next hn =>
      rcases List.mem_append.mp hc with hc | hc
      · exact ih (n / 10) (by omega) hc
      · exact List.mem_singleton.mp hc ▸ hp (n % 10) (Nat.mod_lt n (by decide))

theorem head?_toDigits {n : Nat} (h : (Nat.toDigits 10 n).head? = some '0') : n = 0 := by
  induction n using Nat.strongRecOn with
  | ind n ih =>
    rcases Nat.lt_or_ge n 10 with hn | hn
    · have hsmall : ∀ m < 10, m.digitChar = '0' → m = 0 := by decide
      rw [Nat.toDigits_of_lt_base hn] at h
      exact hsmall n hn (Option.some.inj h)
    · rw [Nat.toDigits_of_base_le (by decide) hn,
        List.head?_append_of_ne_nil _ Nat.toDigits_ne_nil] at h
      have hzero : n / 10 = 0 := ih (n / 10) (by omega) h
      omega

theorem digitsValue_eq (n : Nat) (ds : List Char) : digitsValue n ds = Nat.ofDigitChars 10 ds n := by
  induction ds generalizing n with
  | nil => rfl
  | cons d ds ih => exact ih _

/-- A natural number is read back if nothing follows it that would go on with it. -/
theorem parseUnsigned?_toDigits (n : Nat) {rest : List Char} (hrest : IsBehindValue rest) :
    parseUnsigned? (Nat.toDigits 10 n ++ rest) = some (.nat n, rest) := by
  have hdigits : parseDigits? (Nat.toDigits 10 n ++ rest) = some (Nat.toDigits 10 n, rest) := by
    have hall (c : Char) (hc : c ∈ Nat.toDigits 10 n) : Text.isAsciiDigit c = true :=
      of_mem_toDigits (p := fun c => Text.isAsciiDigit c = true) (by decide) hc
    have htake : rest.takeWhile Text.isAsciiDigit = [] := by
      cases hrest <;> rfl
    have hdrop : rest.dropWhile Text.isAsciiDigit = rest := by
      cases hrest <;> rfl
    rw [parseDigits?, List.takeWhile_append_of_pos hall, List.dropWhile_append_of_pos hall, htake,
      hdrop, List.append_nil]
    split
    next hnil => exact absurd hnil Nat.toDigits_ne_nil
    next => rfl
  have hlead : ((Nat.toDigits 10 n).head? == some '0' && (Nat.toDigits 10 n).length != 1) = false := by
    by_cases hhead : (Nat.toDigits 10 n).head? = some '0'
    · rw [head?_toDigits hhead]
      rfl
    · simp [hhead]
  have hfraction : parseFraction? rest = some (false, rest) := by
    cases hrest <;> rfl
  have hexponent : parseExponent? rest = some (false, rest) := by
    cases hrest <;> rfl
  simp [parseUnsigned?, hdigits, hlead, hfraction, hexponent, digitsValue_eq]

theorem parseNumber?_of_ne {c : Char} (hc : c ≠ '-') (cs : List Char) :
    parseNumber? (c :: cs) = parseUnsigned? (c :: cs) := by
  unfold parseNumber?
  split
  next heq => exact absurd (List.cons.inj heq).1 hc
  next => rfl

/-! ## Values -/

/-- Values that are printed in full: they have no other numbers than natural ones, and all texts and
keys stand for characters. -/
inductive IsPlain : Json → Prop
  | null : IsPlain .null
  | bool (b : Bool) : IsPlain (.bool b)
  | nat (n : Nat) : IsPlain (.nat n)
  | text (s : String) : IsPlain (.text (some s))
  | array (items : List Json) (hitems : ∀ item ∈ items, IsPlain item) : IsPlain (.array items)
  | object (entries : List (Option String × Json))
      (hkeys : ∀ e ∈ entries, e.1.isSome = true) (hvalues : ∀ e ∈ entries, IsPlain e.2) :
      IsPlain (.object entries)

/-- Whether a value is read back, with fuel for each character that is printed. -/
def IsReadBack (j : Json) : Prop :=
  ∀ level fuel rest, (j.print level).length ≤ fuel + 1 → IsBehindValue rest →
    parseValue? (fuel + 1) (j.print level ++ rest) = some (j, rest)

theorem print_nat (level n : Nat) : (nat n).print level = Nat.toDigits 10 n := Nat.toList_repr

theorem print_array_cons (level : Nat) (item : Json) (items : List Json) :
    (array (item :: items)).print level = '[' :: (newLine (level + 1) ++ item.print (level + 1) ++
      printItems (level + 1) items ++ newLine level ++ [']']) := rfl

theorem print_object_cons (level : Nat) (key : Option String) (value : Json)
    (entries : List (Option String × Json)) :
    (object ((key, value) :: entries)).print level = '{' :: (newLine (level + 1) ++ quoteText key ++
      [':', ' '] ++ value.print (level + 1) ++ printEntries (level + 1) entries ++ newLine level ++
      ['}']) := rfl

theorem printItems_cons (level : Nat) (item : Json) (items : List Json) :
    printItems level (item :: items) =
      ',' :: (newLine level ++ item.print level ++ printItems level items) := rfl

theorem printEntries_cons (level : Nat) (key : Option String) (value : Json)
    (entries : List (Option String × Json)) :
    printEntries level ((key, value) :: entries) = ',' :: (newLine level ++ quoteText key ++ [':', ' '] ++
      value.print level ++ printEntries level entries) := rfl

/-- The first character of a printed value tells it from blanks and from the end of an array. -/
theorem print_eq_cons (level : Nat) (j : Json) :
    ∃ c cs, j.print level = c :: cs ∧ isSpace c = false ∧ c ≠ ']' := by
  cases j with
  | null => exact ⟨_, _, rfl, rfl, by decide⟩
  | bool b => cases b <;> exact ⟨_, _, rfl, rfl, by decide⟩
  | number => exact ⟨_, _, rfl, rfl, by decide⟩
  | text => exact ⟨_, _, rfl, rfl, by decide⟩
  | array items => cases items <;> exact ⟨_, _, rfl, rfl, by decide⟩
  | object entries => rcases entries with _ | ⟨⟨_, _⟩, _⟩ <;> exact ⟨_, _, rfl, rfl, by decide⟩
  | nat n =>
    cases hdigits : Nat.toDigits 10 n with
    | nil => exact absurd hdigits Nat.toDigits_ne_nil
    | cons c cs =>
      have hc : c ∈ Nat.toDigits 10 n := hdigits ▸ List.mem_cons_self
      have hhead : isSpace c = false ∧ c ≠ ']' :=
        of_mem_toDigits (p := fun c => isSpace c = false ∧ c ≠ ']') (by decide) hc
      exact ⟨c, cs, (print_nat level n).trans hdigits, hhead⟩

theorem skipSpace_cons {c : Char} (hc : isSpace c = false) (s : List Char) :
    skipSpace (c :: s) = c :: s := by
  simp [skipSpace, hc]

theorem skipSpace_newLine (level : Nat) (s : List Char) :
    skipSpace (newLine level ++ s) = skipSpace s := by
  have hspace : ∀ c ∈ newLine level, isSpace c = true := by
    simp [newLine, isSpace]
  rw [skipSpace, List.dropWhile_append_of_pos hspace, skipSpace]

theorem skipSpace_print (level : Nat) (j : Json) (rest : List Char) :
    skipSpace (j.print level ++ rest) = j.print level ++ rest := by
  obtain ⟨c, cs, heq, hspace, -⟩ := print_eq_cons level j
  rw [heq, List.cons_append, skipSpace_cons hspace]

theorem parseValue?_congr {s t : List Char} (h : skipSpace s = skipSpace t) (fuel : Nat) :
    parseValue? fuel s = parseValue? fuel t := by
  cases fuel with
  | zero => rfl
  | succ fuel => rw [parseValue?, parseValue?, h]

/-- A value is read back behind blanks. -/
theorem IsReadBack.parseValue? {j : Json} (hj : j.IsReadBack) {level fuel : Nat}
    {s behind : List Char} (hs : skipSpace s = j.print level ++ behind)
    (hfuel : (j.print level).length ≤ fuel) (hbehind : IsBehindValue behind) :
    parseValue? fuel s = some (j, behind) := by
  rw [← skipSpace_print] at hs
  obtain ⟨c, cs, heq, -⟩ := print_eq_cons level j
  obtain ⟨fuel, rfl⟩ : ∃ k, fuel = k + 1 :=
    Nat.exists_eq_add_one.mpr (Nat.lt_of_lt_of_le (heq ▸ Nat.succ_pos _) hfuel)
  rw [parseValue?_congr hs]
  exact hj level fuel behind hfuel hbehind

theorem isReadBack_nat (n : Nat) : IsReadBack (.nat n) := by
  intro level fuel rest _ hrest
  have hskip := skipSpace_print level (.nat n) rest
  rw [print_nat] at hskip ⊢
  have hnumber := parseUnsigned?_toDigits n hrest
  cases hdigits : Nat.toDigits 10 n with
  | nil => exact absurd hdigits Nat.toDigits_ne_nil
  | cons c cs =>
    have hc : c ∈ Nat.toDigits 10 n := hdigits ▸ List.mem_cons_self
    -- A digit starts no other value.
    have hhead : c ∉ ['"', '[', '{', 'n', 't', 'f', '-'] :=
      of_mem_toDigits (p := (· ∉ ['"', '[', '{', 'n', 't', 'f', '-'])) (by decide) hc
    simp only [List.mem_cons, List.not_mem_nil, or_false, not_or] at hhead
    rw [hdigits, List.cons_append] at hskip hnumber
    rw [List.cons_append, Json.parseValue?, hskip]
    simp only [beq_iff_eq, hhead, if_false, parseNumber?_of_ne hhead.2.2.2.2.2.2, hnumber]

/-! ## Items and entries -/

theorem length_newLine (level : Nat) : (newLine level).length = 2 * level + 1 := by
  rw [newLine, List.length_cons, List.length_replicate]

/-- The value of an item is read, and then what is behind it decides. -/
theorem parseItems?_item {item : Json} (hitem : IsReadBack item) {level fuel : Nat}
    (hfuel : (item.print level).length ≤ fuel) {behind : List Char} (hbehind : IsBehindValue behind)
    {rest : List Char} :
    (skipSpace behind = ',' :: rest →
      parseItems? (fuel + 1) (newLine level ++ (item.print level ++ behind)) =
        (parseItems? fuel rest).map fun r => (item :: r.1, r.2)) ∧
    (skipSpace behind = ']' :: rest →
      parseItems? (fuel + 1) (newLine level ++ (item.print level ++ behind)) =
        some ([item], rest)) := by
  have hskip : skipSpace (newLine level ++ (item.print level ++ behind)) = item.print level ++ behind := by
    rw [skipSpace_newLine, skipSpace_print]
  rw [parseItems?, hitem.parseValue? hskip hfuel hbehind]
  exact ⟨fun h => by simp only [h], fun h => by simp only [h]⟩

/-- The items of an array are read back up to the closing bracket. -/
theorem parseItems?_print {level : Nat} {item : Json} {items : List Json}
    (hitems : ∀ j ∈ item :: items, IsReadBack j) {fuel : Nat}
    (hfuel : (item.print level).length + (printItems level items).length < fuel)
    (outer : Nat) (rest : List Char) :
    parseItems? fuel (newLine level ++ (item.print level ++ (printItems level items ++
      (newLine outer ++ ']' :: rest)))) = some (item :: items, rest) := by
  induction items generalizing item fuel with
  | nil =>
    obtain ⟨hitem, -⟩ := List.forall_mem_cons.mp hitems
    obtain ⟨fuel, rfl⟩ : ∃ k, fuel = k + 1 := Nat.exists_eq_add_one.mpr (by omega)
    exact (parseItems?_item hitem (by omega) (.newLine _)).2 (skipSpace_newLine outer _)
  | cons next items ih =>
    obtain ⟨hitem, hitems⟩ := List.forall_mem_cons.mp hitems
    simp only [printItems_cons, List.length_append, List.length_cons, length_newLine] at hfuel
    obtain ⟨fuel, rfl⟩ : ∃ k, fuel = k + 1 := Nat.exists_eq_add_one.mpr (by omega)
    have hlength : (next.print level).length + (printItems level items).length < fuel := by omega
    have hrest := ih hitems hlength
    rw [printItems_cons, List.cons_append, (parseItems?_item hitem (by omega) (.comma _)).1 rfl]
    simp only [List.append_assoc, hrest, Option.map_some]

/-- The key and the value of an entry are read, and then what is behind them decides. -/
theorem parseEntries?_entry (key : String) {value : Json} (hvalue : IsReadBack value)
    {level fuel : Nat} (hfuel : (value.print level).length ≤ fuel) {behind : List Char}
    (hbehind : IsBehindValue behind) {rest : List Char} :
    (skipSpace behind = ',' :: rest →
      parseEntries? (fuel + 1) (newLine level ++ (quoteText (some key) ++
          (':' :: ' ' :: (value.print level ++ behind)))) =
        (parseEntries? fuel rest).map fun r => ((some key, value) :: r.1, r.2)) ∧
    (skipSpace behind = '}' :: rest →
      parseEntries? (fuel + 1) (newLine level ++ (quoteText (some key) ++
          (':' :: ' ' :: (value.print level ++ behind)))) =
        some ([(some key, value)], rest)) := by
  obtain ⟨cs, hquote, hkey⟩ := parseString?_quoteText key (':' :: ' ' :: (value.print level ++ behind))
  have hblank : skipSpace (' ' :: (value.print level ++ behind)) = value.print level ++ behind :=
    skipSpace_print level value behind
  simp only [parseEntries?, skipSpace_newLine, hquote, skipSpace_cons (c := '"') rfl, hkey,
    skipSpace_cons (c := ':') rfl, hvalue.parseValue? hblank hfuel hbehind]
  exact ⟨fun h => by simp only [h], fun h => by simp only [h]⟩

/-- The entries of an object are read back up to the closing brace. -/
theorem parseEntries?_print {level : Nat} (key : String) {value : Json}
    {entries : List (Option String × Json)} (hvalue : IsReadBack value)
    (hkeys : ∀ e ∈ entries, e.1.isSome = true) (hvalues : ∀ e ∈ entries, IsReadBack e.2) {fuel : Nat}
    (hfuel : (value.print level).length + (printEntries level entries).length < fuel)
    (outer : Nat) (rest : List Char) :
    parseEntries? fuel (newLine level ++ (quoteText (some key) ++ (':' :: ' ' :: (value.print level ++
      (printEntries level entries ++ (newLine outer ++ '}' :: rest)))))) =
        some ((some key, value) :: entries, rest) := by
  induction entries generalizing key value fuel with
  | nil =>
    obtain ⟨fuel, rfl⟩ : ∃ k, fuel = k + 1 := Nat.exists_eq_add_one.mpr (by omega)
    exact (parseEntries?_entry key hvalue (by omega) (.newLine _)).2 (skipSpace_newLine outer _)
  | cons next entries ih =>
    obtain ⟨nextKey, nextValue⟩ := next
    obtain ⟨hnextKey, hotherKeys⟩ := List.forall_mem_cons.mp hkeys
    obtain ⟨hnextValue, hotherValues⟩ := List.forall_mem_cons.mp hvalues
    have hnextValue : IsReadBack nextValue := hnextValue
    obtain ⟨nextKey, rfl⟩ : ∃ k, nextKey = some k := Option.isSome_iff_exists.mp hnextKey
    simp only [printEntries_cons, List.length_append, List.length_cons, length_newLine] at hfuel
    obtain ⟨fuel, rfl⟩ : ∃ k, fuel = k + 1 := Nat.exists_eq_add_one.mpr (by omega)
    have hlength : (nextValue.print level).length + (printEntries level entries).length < fuel := by
      omega
    have hrest := ih nextKey hnextValue hotherKeys hotherValues hlength
    rw [printEntries_cons, List.cons_append, (parseEntries?_entry key hvalue (by omega) (.comma _)).1 rfl]
    simp only [List.append_assoc, List.cons_append, List.nil_append, hrest, Option.map_some]

/-! ## Whole values -/

theorem isReadBack_text (s : String) : IsReadBack (.text (some s)) := by
  intro level fuel rest _ _
  obtain ⟨cs, hquote, htext⟩ := parseString?_quoteText s rest
  change parseValue? (fuel + 1) (quoteText (some s) ++ rest) = _
  simp [parseValue?, hquote, skipSpace_cons (c := '"') rfl, htext]

theorem parseValue?_bracket {fuel : Nat} {s cs : List Char} {c : Char} (hs : skipSpace s = c :: cs)
    (hc : c ≠ ']') :
    parseValue? (fuel + 1) ('[' :: s) = (parseItems? fuel s).map fun r => (.array r.1, r.2) := by
  simp [parseValue?, skipSpace_cons (c := '[') rfl, hs, hc]

theorem isReadBack_array {items : List Json} (hitems : ∀ item ∈ items, IsReadBack item) :
    IsReadBack (.array items) := by
  intro level fuel rest hfuel _
  cases items with
  | nil => rfl
  | cons item items =>
    simp only [print_array_cons, List.length_cons, List.length_append, length_newLine] at hfuel
    have hlength : (item.print (level + 1)).length + (printItems (level + 1) items).length < fuel := by
      omega
    have hread := parseItems?_print hitems hlength level rest
    -- The first item keeps the array from ending at once.
    obtain ⟨c, cs, hhead, -, hclose⟩ := print_eq_cons (level + 1) item
    have hfirst (s : List Char) :
        skipSpace (newLine (level + 1) ++ (item.print (level + 1) ++ s)) = c :: (cs ++ s) := by
      rw [skipSpace_newLine, skipSpace_print, hhead, List.cons_append]
    simp only [print_array_cons, List.cons_append, List.append_assoc, List.nil_append]
    rw [parseValue?_bracket (hfirst _) hclose, hread]
    rfl

theorem parseValue?_brace {fuel : Nat} {s cs : List Char} {c : Char} (hs : skipSpace s = c :: cs)
    (hc : c ≠ '}') :
    parseValue? (fuel + 1) ('{' :: s) = (parseEntries? fuel s).map fun r => (.object r.1, r.2) := by
  simp [parseValue?, skipSpace_cons (c := '{') rfl, hs, hc]

theorem isReadBack_object {entries : List (Option String × Json)}
    (hkeys : ∀ e ∈ entries, e.1.isSome = true) (hvalues : ∀ e ∈ entries, IsReadBack e.2) :
    IsReadBack (.object entries) := by
  intro level fuel rest hfuel _
  cases entries with
  | nil => rfl
  | cons e entries =>
    obtain ⟨key, value⟩ := e
    obtain ⟨hkey, hotherKeys⟩ := List.forall_mem_cons.mp hkeys
    obtain ⟨hvalue, hotherValues⟩ := List.forall_mem_cons.mp hvalues
    have hvalue : IsReadBack value := hvalue
    obtain ⟨key, rfl⟩ : ∃ k, key = some k := Option.isSome_iff_exists.mp hkey
    simp only [print_object_cons, List.length_cons, List.length_append, length_newLine] at hfuel
    have hlength :
        (value.print (level + 1)).length + (printEntries (level + 1) entries).length < fuel := by
      omega
    have hread := parseEntries?_print key hvalue hotherKeys hotherValues hlength level rest
    have hfirst (s : List Char) : ∃ cs,
        skipSpace (newLine (level + 1) ++ (quoteText (some key) ++ s)) = '"' :: cs := by
      obtain ⟨cs, hquote, -⟩ := parseString?_quoteText key s
      exact ⟨cs, by rw [skipSpace_newLine, hquote, skipSpace_cons rfl]⟩
    simp only [print_object_cons, List.cons_append, List.append_assoc, List.nil_append]
    rw [parseValue?_brace (hfirst _).choose_spec (by decide), hread]
    rfl

theorem IsPlain.isReadBack {j : Json} (h : j.IsPlain) : j.IsReadBack := by
  induction h with
  | null => exact fun level fuel rest _ _ => rfl
  | bool b => cases b <;> exact fun level fuel rest _ _ => rfl
  | nat n => exact isReadBack_nat n
  | text s => exact isReadBack_text s
  | array items _ ih => exact isReadBack_array ih
  | object entries hkeys _ ih => exact isReadBack_object hkeys ih

/-- A plain value is read back from its text. -/
theorem parse?_pretty {j : Json} (h : j.IsPlain) : parse? j.pretty = some j := by
  have hread := h.isReadBack 0 (2 * (j.print 0).length + 1) [] (by omega) .nil
  rw [List.append_nil] at hread
  simp only [parse?, pretty, String.toList_ofList, hread]
  rfl

end Flowgraph.Json

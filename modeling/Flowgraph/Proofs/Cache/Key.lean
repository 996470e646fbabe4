import Flowgraph.Cache.Key
import Flowgraph.Proofs.Ordered
import Flowgraph.Proofs.Text.Slice

/-!
# What a key tells of the files

Which sets of files have one stream, and so one key. A zero ends a text in the stream, and a zero in a
text looks the same.
-/

namespace Flowgraph

/-- Two messages with one digest. -/
def Sha256.Collide (message message' : List UInt8) : Prop :=
  message ≠ message' ∧ hexDigest message = hexDigest message'

namespace Cache

variable {files other : Contents} {f g : String × String} {l m : List (String × String)}
  {path content : String}

/-! ## Streams as texts -/

theorem utf8_injective : Function.Injective utf8 := by
  intro s t h
  rw [← String.ofList_toList (s := s), ← String.ofList_toList (s := t), ← String.toByteArray_inj,
    String.toByteArray_ofList, String.toByteArray_ofList]
  exact congrArg List.toByteArray h

/-- The texts of files, each with a zero behind it. -/
def spell (l : List (String × String)) : List Char :=
  l.flatMap fun f => f.1.toList ++ '\x00' :: (f.2.toList ++ ['\x00'])

theorem spell_cons : spell (f :: l) = f.1.toList ++ '\x00' :: (f.2.toList ++ '\x00' :: spell l) := by
  simp [spell]

theorem stream_eq_utf8_spell : stream files = utf8 (String.ofList (spell files.toList)) := by
  have hzero : String.utf8EncodeChar '\x00' = [0] := by decide
  simp [stream, fileBytes, utf8, spell, List.flatMap_assoc, hzero]

theorem stream_eq_iff : stream files = stream other ↔ spell files.toList = spell other.toList := by
  rw [stream_eq_utf8_spell, stream_eq_utf8_spell, utf8_injective.eq_iff, String.ofList_inj]

/-! ## Zeros -/

/-- A file with no zero in its path and its content. -/
def IsPlainFile (f : String × String) : Prop := '\x00' ∉ f.1.toList ∧ '\x00' ∉ f.2.toList

instance : Decidable (IsPlainFile f) := inferInstanceAs (Decidable (_ ∧ _))

/-- The characters of all paths and contents. -/
def characters (l : List (String × String)) : List Char := l.flatMap fun f => f.1.toList ++ f.2.toList

theorem count_characters_eq_zero : (characters l).count '\x00' = 0 ↔ ∀ f ∈ l, IsPlainFile f := by
  simp only [List.count_eq_zero, characters, List.mem_flatMap, List.mem_append, not_exists, not_and,
    not_or, IsPlainFile]

/-- There are two zeros for each file besides those in the texts. -/
theorem count_spell : (spell l).count '\x00' = 2 * l.length + (characters l).count '\x00' := by
  induction l with
  | nil => rfl
  | cons f l ih =>
    simp only [spell_cons, characters, List.flatMap_cons, List.count_append, List.count_cons_self,
      List.length_cons] at ih ⊢
    omega

/-- Without zeros in the texts, each zero is the end of one. -/
theorem eq_of_spell_eq (hl : ∀ f ∈ l, IsPlainFile f) (hm : ∀ f ∈ m, IsPlainFile f)
    (h : spell l = spell m) : l = m := by
  induction l generalizing m with
  | nil =>
    cases m with
    | nil => rfl
    | cons g m => simp [spell] at h
  | cons f l ih =>
    cases m with
    | nil => simp [spell] at h
    | cons g m =>
      obtain ⟨hf, hl⟩ := List.forall_mem_cons.mp hl
      obtain ⟨hg, hm⟩ := List.forall_mem_cons.mp hm
      rw [spell_cons, spell_cons] at h
      obtain ⟨hpath, h⟩ := Text.append_cons_inj hf.1 hg.1 h
      obtain ⟨hcontent, h⟩ := Text.append_cons_inj hf.2 hg.2 h
      rw [ih hl hm h, Prod.ext (String.toList_inj.mp hpath) (String.toList_inj.mp hcontent)]

/-- Files with no zero in a path or a content. -/
def IsPlain (files : Contents) : Prop := ∀ f ∈ files.toList, IsPlainFile f

instance : Decidable (IsPlain files) := inferInstanceAs (Decidable (∀ f ∈ files.toList, IsPlainFile f))

theorem eq_of_toList_eq (h : files.toList = other.toList) : files = other := by
  rw [← OrderedMap.ofList_toList files, h, OrderedMap.ofList_toList]

theorem IsPlain.eq_of_stream_eq (hfiles : IsPlain files) (hother : IsPlain other)
    (h : stream files = stream other) : files = other :=
  eq_of_toList_eq (eq_of_spell_eq hfiles hother (stream_eq_iff.mp h))

/-- Of one file without zeros, or of none, each zero in the stream is accounted for. -/
theorem IsPlain.eq_of_size_le_one (hfiles : IsPlain files) (hsize : files.size ≤ 1)
    (h : stream other = stream files) : other = files := by
  -- Two zeros end the texts of one file, so that the other set has as many files and no zeros besides.
  have hcount := congrArg (List.count '\x00') (stream_eq_iff.mp h)
  rw [← Std.ExtTreeMap.length_toList] at hsize
  rw [count_spell, count_spell, count_characters_eq_zero.mpr hfiles] at hcount
  have hnone : other.toList.length = 0 → (characters other.toList).count '\x00' = 0 := by
    intro hzero
    rw [List.length_eq_zero_iff.mp hzero]
    rfl
  have hother : IsPlain other := count_characters_eq_zero.mp (by omega)
  exact hother.eq_of_stream_eq hfiles h

/-! ## Single files -/

/-- The set of one file. -/
def single (path content : List Char) : Contents :=
  (∅ : Contents).insert (String.ofList path) (String.ofList content)

theorem spell_single (path content : List Char) :
    spell (single path content).toList = path ++ '\x00' :: (content ++ ['\x00']) := by
  simp [single, OrderedMap.toList_insert_empty, spell]

theorem size_single (path content : List Char) : (single path content).size = 1 := by
  simp [single, Std.ExtTreeMap.size_insert]

theorem isPlain_single {path content : List Char} :
    IsPlain (single path content) ↔ '\x00' ∉ path ∧ '\x00' ∉ content := by
  simp [IsPlain, single, OrderedMap.toList_insert_empty, IsPlainFile]

theorem single_inj {path path' content content' : List Char} :
    single path content = single path' content' ↔ path = path' ∧ content = content' := by
  constructor
  · intro h
    have hlist := congrArg Std.ExtTreeMap.toList h
    simpa [single, OrderedMap.toList_insert_empty, String.ofList_inj] using hlist
  · rintro ⟨rfl, rfl⟩
    rfl

/-- Files have the stream of a single one, that has the path of the first and all else for content. -/
theorem exists_single_of_ne_nil (hl : l ≠ []) :
    ∃ path content, spell l = spell (single path content).toList := by
  obtain ⟨f, l, rfl⟩ := List.exists_cons_of_ne_nil hl
  have hend : ∃ rest, '\x00' :: spell l = rest ++ ['\x00'] := by
    rcases l.eq_nil_or_concat with rfl | ⟨l, g, rfl⟩
    · exact ⟨[], rfl⟩
    · exact ⟨'\x00' :: (spell l ++ (g.1.toList ++ '\x00' :: g.2.toList)), by simp [spell]⟩
  obtain ⟨rest, hrest⟩ := hend
  exact ⟨f.1.toList, f.2.toList ++ rest, by rw [spell_cons, hrest, spell_single, List.append_assoc]⟩

/-- A single file with a zero has the stream of another one, that is parted from its content there. -/
theorem exists_single_ne {path content : List Char} (h : '\x00' ∈ path ∨ '\x00' ∈ content) :
    ∃ path' content', path' ≠ path ∧
      spell (single path' content').toList = spell (single path content).toList := by
  rcases h with h | h
  · obtain ⟨s, t, rfl⟩ := List.append_of_mem h
    exact ⟨s, t ++ '\x00' :: content, by simp, by simp [spell_single]⟩
  · obtain ⟨s, t, rfl⟩ := List.append_of_mem h
    exact ⟨path ++ '\x00' :: s, t, by simp, by simp [spell_single]⟩

/-! ## Sets of files -/

/-- Only files without zeros, and only one or none of them, are told apart from all other sets. -/
theorem isPlain_and_size_le_one_of_unique (h : ∀ other, stream other = stream files → other = files) :
    IsPlain files ∧ files.size ≤ 1 := by
  by_cases hnone : files.toList = []
  · have hsize : files.size = 0 := by rw [← Std.ExtTreeMap.length_toList, hnone, List.length_nil]
    exact ⟨fun f hf => absurd (hnone ▸ hf) List.not_mem_nil, by omega⟩
  · -- The set is the single file that has its stream, and a zero in that one would make another.
    obtain ⟨path, content, hspell⟩ := exists_single_of_ne_nil hnone
    obtain rfl : single path content = files := h _ (stream_eq_iff.mpr hspell.symm)
    refine ⟨?_, (size_single path content).le⟩
    by_contra hplain
    have hzero : '\x00' ∈ path ∨ '\x00' ∈ content := by
      rwa [isPlain_single, Decidable.not_and_iff_not_or_not, not_not, not_not] at hplain
    obtain ⟨path', content', hne, hsame⟩ := exists_single_ne hzero
    exact hne (single_inj.mp (h _ (stream_eq_iff.mpr hsame))).1

/-- Two sets of files without zeros have two streams, and two keys unless their streams collide. A zero
in a text looks like the end of the text, so that a set of files is told apart from all others exactly
if it is one file without zeros, or none. -/
theorem stream_eq_iff_of_isPlain (files : Contents) :
    (∀ other, IsPlain files → IsPlain other →
      (stream files = stream other ↔ files = other) ∧
      (key files = key other → files = other ∨ Sha256.Collide (stream files) (stream other))) ∧
    ((∀ other, stream other = stream files → other = files) ↔ IsPlain files ∧ files.size ≤ 1) := by
  refine ⟨fun other hfiles hother => ?_, isPlain_and_size_le_one_of_unique, ?_⟩
  · have hiff : stream files = stream other ↔ files = other :=
      ⟨hfiles.eq_of_stream_eq hother, congrArg stream⟩
    refine ⟨hiff, fun hkey => ?_⟩
    by_cases hstream : stream files = stream other
    · exact .inl (hiff.mp hstream)
    · exact .inr ⟨hstream, hkey⟩
  · rintro ⟨hfiles, hsize⟩ other h
    exact hfiles.eq_of_size_le_one hsize h

/-- The same characters, parted in another way. -/
theorem stream_eq_iff_of_isPlain_of_moved_boundary :
    let files : Contents := .ofList [("a", "bc")]
    let other : Contents := .ofList [("ab", "c")]
    IsPlain files ∧ IsPlain other ∧ stream files ≠ stream other ∧
      ∀ any, stream any = stream files → any = files := by
  intro files other
  have hfiles : IsPlain files := by decide +kernel
  have hother : IsPlain other := by decide +kernel
  have hne : files ≠ other := by decide +kernel
  have hsize : files.size ≤ 1 := by decide +kernel
  obtain ⟨hboth, hunique⟩ := stream_eq_iff_of_isPlain files
  exact ⟨hfiles, hother, fun h => hne ((hboth other hfiles hother).1.mp h), hunique.mpr ⟨hfiles, hsize⟩⟩

/-- A file whose content goes on as a second file would. -/
theorem exists_key_of_two_sets :
    ∃ files other : Contents, files ≠ other ∧ stream files = stream other ∧ key files = key other := by
  have hstream : stream (.ofList [("a", "b\x00c\x00d")]) = stream (.ofList [("a", "b"), ("c", "d")]) := by
    decide +kernel
  exact ⟨_, _, by decide +kernel, hstream, congrArg Sha256.hexDigest hstream⟩

end Cache

end Flowgraph

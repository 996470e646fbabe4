import Flowgraph.Proofs.Scan.Definitions

/-!
# Bodies by indentation

Definitions whose bodies are told by indentation nest, and a line is owned by the nearest header above it
that is indented less and whose body no line in between has ended.
-/

namespace Flowgraph

namespace Scan

variable {l : Language} {source : String} {lines below : List (List Char)} {line : List Char}
  {d e : Definition} {ds : List Definition} {h : Header} {base last a b j k : Nat}

/-! ## Lines by number -/

def lineAt (lines : List (List Char)) (k : Nat) : List Char := lines.getD k []

def indentAt (lines : List (List Char)) (k : Nat) : Nat := indentWidth (lineAt lines k)

/-- The lines from `a` on and above `b` are indented deeper than `base`, or blank. -/
def IsDeep (lines : List (List Char)) (base a b : Nat) : Prop :=
  ∀ k, a ≤ k → k < b → Text.trim (lineAt lines k) ≠ [] → base < indentAt lines k

theorem lineAt_of_getElem? (hline : lines[k]? = some line) : lineAt lines k = line := by
  rw [lineAt, List.getD_eq_getElem?_getD, hline, Option.getD_some]

theorem drop_eq_cons (hdrop : lines.drop k = line :: below) :
    lineAt lines k = line ∧ lines.drop (k + 1) = below := by
  have hline : lines[k]? = some line := by rw [← List.head?_drop, hdrop, List.head?_cons]
  refine ⟨lineAt_of_getElem? hline, ?_⟩
  rw [← List.tail_drop, hdrop, List.tail_cons]

/-! ## Ends of blocks -/

/-- A block known to go on to line `last`, above line `k`, ends on line `r`: at a word `end` below its deep
lines, or else at the last of them. -/
structure IsBlockEnd (lines : List (List Char)) (base last k r : Nat) : Prop where
  last_le : last ≤ r
  not_blank : last < r → Text.trim (lineAt lines r) ≠ []
  deep : ∀ j, k ≤ j → j ≤ r → Text.trim (lineAt lines j) ≠ [] →
    base < indentAt lines j ∨
      base = indentAt lines j ∧ j = r ∧ Text.trim (lineAt lines j) = ['e', 'n', 'd']
  reaches : ∀ j, k ≤ j → Text.trim (lineAt lines j) ≠ [] → IsDeep lines base k (j + 1) → j ≤ r

section Steps

variable {r : Nat}

theorem isBlockEnd_nil (hlast : last < k) (hlength : lines.length ≤ k) :
    IsBlockEnd lines base last k last where
  last_le := Nat.le_refl last
  not_blank hlt := absurd hlt (Nat.lt_irrefl last)
  deep j hj hle := by omega
  reaches j hj hne := by
    rw [lineAt, List.getD_eq_getElem?_getD, List.getElem?_eq_none (hlength.trans hj)] at hne
    exact absurd rfl hne

theorem IsBlockEnd.blank (hr : IsBlockEnd lines base last (k + 1) r)
    (hblank : Text.trim (lineAt lines k) = []) : IsBlockEnd lines base last k r where
  last_le := hr.last_le
  not_blank := hr.not_blank
  deep j hj hle hne := by
    obtain rfl | hlt := Nat.eq_or_lt_of_le hj
    · exact absurd hblank hne
    · exact hr.deep j hlt hle hne
  reaches j hj hne hdeep := by
    obtain rfl | hlt := Nat.eq_or_lt_of_le hj
    · exact absurd hblank hne
    · exact hr.reaches j hlt hne fun i hi => hdeep i (Nat.le_of_succ_le hi)

theorem IsBlockEnd.cons (hr : IsBlockEnd lines base k (k + 1) r) (hlast : last < k)
    (hne : Text.trim (lineAt lines k) ≠ []) (hdeep : base < indentAt lines k) :
    IsBlockEnd lines base last k r where
  last_le := hlast.le.trans hr.last_le
  not_blank _ := by
    obtain rfl | hlt := Nat.eq_or_lt_of_le hr.last_le
    · exact hne
    · exact hr.not_blank hlt
  deep j hj hle hne := by
    obtain rfl | hlt := Nat.eq_or_lt_of_le hj
    · exact .inl hdeep
    · exact hr.deep j hlt hle hne
  reaches j hj hne hdeep := by
    obtain rfl | hlt := Nat.eq_or_lt_of_le hj
    · exact hr.last_le
    · exact hr.reaches j hlt hne fun i hi => hdeep i (Nat.le_of_succ_le hi)

/-- No deep lines go on below a line that is not deep. -/
theorem not_isDeep (hne : Text.trim (lineAt lines k) ≠ []) (hle : indentAt lines k ≤ base) (hj : k ≤ j) :
    ¬IsDeep lines base k (j + 1) := by
  intro hdeep
  have hlt := hdeep k (Nat.le_refl k) (Nat.lt_succ_of_le hj) hne
  omega

theorem isBlockEnd_of_end (hlast : last < k) (hend : Text.trim (lineAt lines k) = ['e', 'n', 'd'])
    (heq : base = indentAt lines k) : IsBlockEnd lines base last k k where
  last_le := hlast.le
  not_blank _ := by simp [hend]
  deep j hj hle _ := by
    obtain rfl := Nat.le_antisymm hj hle
    exact .inr ⟨heq, rfl, hend⟩
  reaches j hj hne hdeep := absurd hdeep (not_isDeep (by simp [hend]) heq.ge hj)

theorem isBlockEnd_of_le (hlast : last < k) (hne : Text.trim (lineAt lines k) ≠ [])
    (hle : indentAt lines k ≤ base) : IsBlockEnd lines base last k last where
  last_le := Nat.le_refl last
  not_blank hlt := absurd hlt (Nat.lt_irrefl last)
  deep j hj hle := by omega
  reaches j hj _ hdeep := absurd hdeep (not_isDeep hne hle hj)

end Steps

theorem isBlockEnd_indentEndFrom (hlast : last < k) :
    IsBlockEnd lines base last k (indentEndFrom base last k (lines.drop k)) := by
  induction hdrop : lines.drop k generalizing last k with
  | nil => exact isBlockEnd_nil hlast (List.drop_eq_nil_iff.1 hdrop)
  | cons line below ih =>
    obtain ⟨rfl, hbelow⟩ := drop_eq_cons hdrop
    simp only [indentEndFrom, List.isEmpty_iff, Bool.and_eq_true, beq_iff_eq]
    split_ifs with hblank hle hend
    · exact (ih (hlast.trans k.lt_succ_self) hbelow).blank hblank
    · exact isBlockEnd_of_end hlast hend.1 hend.2.symm
    · exact isBlockEnd_of_le hlast hblank hle
    · exact (ih k.lt_succ_self hbelow).cons hlast hblank (Nat.lt_of_not_le hle)

theorem indentEndFrom_add (n : Nat) :
    indentEndFrom base (n + last) (n + k) below = n + indentEndFrom base last k below := by
  induction below generalizing last k with
  | nil => rfl
  | cons line below ih =>
    have hnext : n + k + 1 = n + (k + 1) := rfl
    simp only [indentEndFrom, hnext, ih]
    split_ifs <;> rfl

/-- Where the brackets of its header balance, a definition ends with the block below the header line. -/
theorem isBlockEnd_last (hl : l.blockLayout = .indentation) (hd : d ∈ definitionsFrom l 0 lines)
    (hbalance : bracketBalance (lineAt lines d.first) ≤ 0) :
    IsBlockEnd lines (indentAt lines d.first) d.first (d.first + 1) d.last := by
  obtain ⟨h, hh⟩ := exists_hasHeader hd
  have hline := lineAt_of_getElem? hh.line_eq
  have hlast : d.last =
      indentEndFrom (indentAt lines d.first) d.first (d.first + 1) (lines.drop (d.first + 1)) := by
    have hshift : indentEndFrom (indentAt lines d.first) (d.first + 0) (d.first + 1)
          (lines.drop (d.first + 1)) =
        d.first + indentEndFrom (indentAt lines d.first) 0 1 (lines.drop (d.first + 1)) :=
      indentEndFrom_add d.first
    rw [Nat.add_zero] at hshift
    rw [hh.last_eq, hl, ← hline, hshift]
    simp [indentedBlockEnd, headerEndFrom, hbalance, indentAt]
  rw [hlast]
  exact isBlockEnd_indentEndFrom d.first.lt_succ_self

/-! ## Header lines -/

theorem requires_of_mem_headers {p : Pattern} (hl : l.blockLayout = .indentation) (hp : p ∈ headers l) :
    p.Requires 'f' := by
  have hdef : (Pattern.text "def").Requires 'f' := Pattern.requires_text (by decide)
  cases l
  case python =>
    obtain rfl := List.mem_singleton.1 hp
    exact Pattern.requires_all (by simp) hdef
  case ruby =>
    obtain rfl := List.mem_singleton.1 hp
    exact Pattern.requires_all (by simp) hdef
  all_goals cases hl

/-- A header is neither a blank line nor a word `end`. -/
theorem trim_of_mem (hl : l.blockLayout = .indentation) (hd : d ∈ definitionsFrom l 0 lines) :
    Text.trim (lineAt lines d.first) ≠ [] ∧ Text.trim (lineAt lines d.first) ≠ ['e', 'n', 'd'] := by
  obtain ⟨h, hh⟩ := exists_hasHeader hd
  obtain ⟨p, hp, m, hm, hmatched, -⟩ := exists_find?_of_header? hh.header_eq
  have hmem : 'f' ∈ h.matched ++ h.after := by
    rw [hmatched]
    exact List.mem_append_left _ (List.mem_append_right _ ((requires_of_mem_headers hl hp).mem_matched hm))
  have htrim := Text.mem_trim hmem (by decide)
  rw [lineAt_of_getElem? hh.line_eq]
  constructor <;> intro heq <;> rw [heq] at htrim <;> revert htrim <;> decide

/-! ## Ranges -/

section Balanced

variable (hl : l.blockLayout = .indentation)
  (hbalance : ∀ d ∈ definitionsFrom l 0 lines, bracketBalance (lineAt lines d.first) ≤ 0)
  (hd : d ∈ definitionsFrom l 0 lines) (he : e ∈ definitionsFrom l 0 lines)
include hl hbalance hd he

theorem last_le_of_first_le (hlt : d.first < e.first) (hle : e.first ≤ d.last) : e.last ≤ d.last := by
  have hdEnd := isBlockEnd_last hl hd (hbalance d hd)
  have heEnd := isBlockEnd_last hl he (hbalance e he)
  obtain ⟨hne, hnotEnd⟩ := trim_of_mem hl he
  have hdeeper : indentAt lines d.first < indentAt lines e.first :=
    (hdEnd.deep e.first hlt hle hne).resolve_right fun h => hnotEnd h.2.2
  by_contra hbeyond
  rw [Nat.not_le] at hbeyond
  -- All the lines of the inner block are deep in the outer one, so the outer one takes them in.
  have hinner : ∀ k, e.first ≤ k → k ≤ e.last → Text.trim (lineAt lines k) ≠ [] →
      indentAt lines d.first < indentAt lines k := by
    intro k hk hkle hkne
    obtain rfl | hklt := Nat.eq_or_lt_of_le hk
    · exact hdeeper
    · have := heEnd.deep k hklt hkle hkne
      omega
  have hreach := hdEnd.reaches e.last (hlt.trans_le heEnd.last_le)
    (heEnd.not_blank (hle.trans_lt hbeyond)) fun k hk hklt hkne => by
      obtain hk' | hk' := Nat.lt_or_ge k e.first
      · exact (hdEnd.deep k hk (hk'.le.trans hle) hkne).resolve_right (by omega)
      · exact hinner k hk' (Nat.le_of_lt_succ hklt) hkne
  omega

theorem nests_of_balanced : d.Nests e := by
  unfold Definition.Nests
  obtain hlt | heq | hgt := Nat.lt_trichotomy d.first e.first
  · have := last_le_of_first_le hl hbalance hd he hlt
    omega
  · obtain rfl := eq_of_first_eq hd he heq
    omega
  · have := last_le_of_first_le hl hbalance he hd hgt
    omega

end Balanced

/-! ## Owners -/

/-- Line `k` stands below the header of the definition and deeper, and no line in between has ended the
body. -/
def Definition.Reaches (lines : List (List Char)) (d : Definition) (k : Nat) : Prop :=
  d.first < k ∧ indentAt lines d.first < indentAt lines k ∧
    IsDeep lines (indentAt lines d.first) (d.first + 1) k

theorem encloses_iff : d.encloses k = true ↔ d.first < k ∧ k ≤ d.last := by
  simp [Definition.encloses]

theorem encloses_iff_reaches (hl : l.blockLayout = .indentation) (hd : d ∈ definitionsFrom l 0 lines)
    (hbalance : bracketBalance (lineAt lines d.first) ≤ 0) (hne : Text.trim (lineAt lines k) ≠ [])
    (hnotEnd : Text.trim (lineAt lines k) ≠ ['e', 'n', 'd']) :
    d.encloses k = true ↔ d.Reaches lines k := by
  have hend := isBlockEnd_last hl hd hbalance
  rw [encloses_iff]
  constructor
  · rintro ⟨hlt, hle⟩
    refine ⟨hlt, (hend.deep k hlt hle hne).resolve_right fun h => hnotEnd h.2.2, ?_⟩
    intro j hj hjk hjne
    exact (hend.deep j hj (hjk.le.trans hle) hjne).resolve_right (by omega)
  · rintro ⟨hlt, hdeeper, hdeep⟩
    refine ⟨hlt, hend.reaches k hlt hne fun j hj hjk hjne => ?_⟩
    obtain rfl | hjlt := Nat.eq_or_lt_of_le (Nat.le_of_lt_succ hjk)
    · exact hdeeper
    · exact hdeep j hj hjlt hjne

theorem smallest?_eq_none : smallest? ds = none ↔ ds = [] := by
  cases ds with
  | nil => simp [smallest?]
  | cons d ds =>
    rw [smallest?]
    split
    · split_ifs <;> simp
    · simp

theorem smallest?_spec (hd : smallest? ds = some d) : d ∈ ds ∧ ∀ e ∈ ds, d.height ≤ e.height := by
  induction ds generalizing d with
  | nil => cases hd
  | cons c ds ih =>
    rw [smallest?] at hd
    split at hd
    next d' hds =>
      obtain ⟨hmem, hmin⟩ := ih hds
      split_ifs at hd with hle
      · obtain rfl := Option.some.inj hd
        refine ⟨List.mem_cons_self, List.forall_mem_cons.2 ⟨Nat.le_refl _, fun e he => ?_⟩⟩
        exact hle.trans (hmin e he)
      · obtain rfl := Option.some.inj hd
        exact ⟨List.mem_cons_of_mem c hmem, List.forall_mem_cons.2 ⟨(Nat.lt_of_not_le hle).le, hmin⟩⟩
    next hds =>
      obtain rfl := Option.some.inj hd
      rw [smallest?_eq_none.1 hds]
      simp

theorem owner?_eq_none : owner? ds k = none ↔ ∀ d ∈ ds, ¬d.encloses k = true := by
  rw [owner?, smallest?_eq_none, List.filter_eq_nil_iff]

/-- Where ranges nest, the smallest of those around a line is the one that starts last. -/
theorem owner?_eq_some (hnests : ∀ d ∈ ds, ∀ e ∈ ds, d.Nests e)
    (hfirst : ∀ d ∈ ds, ∀ e ∈ ds, d.first = e.first → d = e) :
    owner? ds k = some d ↔
      d ∈ ds ∧ d.encloses k = true ∧ ∀ e ∈ ds, e.encloses k = true → e.first ≤ d.first := by
  have hsmallest {d : Definition} (hd : owner? ds k = some d) :
      d ∈ ds ∧ d.encloses k = true ∧ ∀ e ∈ ds, e.encloses k = true → e.first ≤ d.first := by
    obtain ⟨hmem, hmin⟩ := smallest?_spec hd
    obtain ⟨hmem, hencloses⟩ := List.mem_filter.1 hmem
    refine ⟨hmem, hencloses, fun e he heEncloses => ?_⟩
    have hheight := hmin e (List.mem_filter.2 ⟨he, heEncloses⟩)
    have hnest := hnests d hmem e he
    rw [encloses_iff] at hencloses heEncloses
    rw [Definition.height, Definition.height] at hheight
    unfold Definition.Nests at hnest
    omega
  refine ⟨hsmallest, fun ⟨hmem, hencloses, hnearest⟩ => ?_⟩
  cases howner : owner? ds k with
  | none => exact absurd hencloses (owner?_eq_none.1 howner d hmem)
  | some e =>
    obtain ⟨heMem, heEncloses, heNearest⟩ := hsmallest howner
    have heq := Nat.le_antisymm (hnearest e heMem heEncloses) (heNearest d hmem hencloses)
    rw [hfirst e heMem d hmem heq]

/-- Where the brackets of the headers balance, definitions nest, and a line that is not blank and no word
`end` is owned by the nearest definition that reaches it. -/
theorem nests_and_owned_by_nearest (hl : l.blockLayout = .indentation)
    (hbalance : ∀ d ∈ definitions l source,
      bracketBalance (lineAt (cleanLines l source) d.first) ≤ 0) :
    (∀ d ∈ definitions l source, ∀ e ∈ definitions l source, d.Nests e) ∧
      ∀ k, Text.trim (lineAt (cleanLines l source) k) ≠ [] →
        Text.trim (lineAt (cleanLines l source) k) ≠ ['e', 'n', 'd'] →
        (∀ d, owner? (definitions l source) k = some d ↔
          d ∈ definitions l source ∧ d.Reaches (cleanLines l source) k ∧
            ∀ e ∈ definitions l source, e.Reaches (cleanLines l source) k → e.first ≤ d.first) ∧
        (owner? (definitions l source) k = none ↔
          ∀ d ∈ definitions l source, ¬d.Reaches (cleanLines l source) k) := by
  have hnests : ∀ d ∈ definitions l source, ∀ e ∈ definitions l source, d.Nests e :=
    fun d hd e he => nests_of_balanced hl hbalance hd he
  refine ⟨hnests, fun k hne hnotEnd => ?_⟩
  have hreaches {d : Definition} (hd : d ∈ definitions l source) :
      d.encloses k = true ↔ d.Reaches (cleanLines l source) k :=
    encloses_iff_reaches hl hd (hbalance d hd) hne hnotEnd
  constructor
  · intro d
    rw [owner?_eq_some hnests fun d hd e he => eq_of_first_eq hd he]
    refine and_congr_right fun hd => and_congr (hreaches hd) (forall₂_congr fun e he => ?_)
    rw [hreaches he]
  · rw [owner?_eq_none]
    exact forall₂_congr fun d hd => not_congr (hreaches hd)

theorem nests_and_owned_by_nearest_of_two_levels :
    owner? (definitions .python "def a(x):\n    def b():\n        f(x)\n    g(x)\nh()\n") 3 =
        some ⟨"a", 0, 3, "x):".toList⟩ ∧
      (Definition.Reaches (cleanLines .python "def a(x):\n    def b():\n        f(x)\n    g(x)\nh()\n")
          ⟨"a", 0, 3, "x):".toList⟩ 3 ∧
        ∀ e ∈ definitions .python "def a(x):\n    def b():\n        f(x)\n    g(x)\nh()\n",
          e.Reaches (cleanLines .python "def a(x):\n    def b():\n        f(x)\n    g(x)\nh()\n") 3 →
            e.first ≤ 0) := by
  have howner : owner? (definitions .python "def a(x):\n    def b():\n        f(x)\n    g(x)\nh()\n") 3 =
      some ⟨"a", 0, 3, "x):".toList⟩ := by decide +kernel
  have hlines := (@nests_and_owned_by_nearest .python
    "def a(x):\n    def b():\n        f(x)\n    g(x)\nh()\n" rfl (by decide +kernel)).2 3
    (by decide +kernel) (by decide +kernel)
  exact ⟨howner, ((hlines.1 _).1 howner).2⟩

end Scan

end Flowgraph

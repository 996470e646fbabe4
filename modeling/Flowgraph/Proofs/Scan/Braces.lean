import Flowgraph.Proofs.Scan.Definitions
import Mathlib.Data.List.Infix

/-!
# The search for the closing brace

The search for the end of a block, on the text behind a header with the lines below: what it passes over,
where it halts, and how many line feeds it has read by then.
-/

namespace Flowgraph

namespace Scan

variable {s t u v w line : List Char} {below : List (List Char)} {b : Braces} {c : Char} {k n : Nat}

/-! ## Balanced brackets -/

/-- The brackets pair up, and none closes before it is opened. -/
def IsBalanced (opening closing : Char) (s : List Char) : Prop :=
  s.count opening = s.count closing ∧ ∀ t ∈ s.inits, t.count closing ≤ t.count opening

instance {opening closing : Char} : Decidable (IsBalanced opening closing s) :=
  inferInstanceAs (Decidable (_ ∧ ∀ t ∈ s.inits, t.count closing ≤ t.count opening))

/-- A brace that is open in front of the text, with `k` more in it, does not close in the text. -/
def StaysOpen (k : Nat) (s : List Char) : Prop := ∀ t ∈ s.inits, t.count '}' ≤ t.count '{' + k

theorem isBalanced_iff : IsBalanced '{' '}' s ↔ s.count '{' = s.count '}' ∧ StaysOpen 0 s := Iff.rfl

theorem staysOpen_of_not_mem (hs : '}' ∉ s) : StaysOpen k s := by
  intro t ht
  have hnone := List.count_eq_zero.2 fun h => hs (((List.mem_inits t s).1 ht).subset h)
  rw [hnone]
  exact Nat.zero_le _

theorem StaysOpen.count_le (hs : StaysOpen k s) : s.count '}' ≤ s.count '{' + k :=
  hs s ((List.mem_inits s s).2 (List.prefix_refl s))

theorem StaysOpen.left (hs : StaysOpen k (s ++ t)) : StaysOpen k s :=
  fun u hu => hs u ((List.mem_inits u _).2 (((List.mem_inits u s).1 hu).trans (List.prefix_append s t)))

theorem StaysOpen.append {j : Nat} (hs : StaysOpen j s) (hcount : s.count '{' + j = s.count '}' + k)
    (ht : StaysOpen k t) : StaysOpen j (s ++ t) := by
  intro u hu
  -- A beginning of the whole ends in the first part or behind it.
  have hprefix := (List.mem_inits u _).1 hu
  obtain h | ⟨v, rfl⟩ := List.prefix_or_prefix_of_prefix hprefix (List.prefix_append s t)
  · exact hs u ((List.mem_inits u s).2 h)
  · have hv := ht v ((List.mem_inits v t).2 ((List.prefix_append_right_inj s).1 hprefix))
    rw [List.count_append, List.count_append]
    omega

theorem staysOpen_open_cons : StaysOpen k ('{' :: s) ↔ StaysOpen (k + 1) s := by
  unfold StaysOpen
  rw [List.inits_cons, List.forall_mem_cons, List.forall_mem_map]
  simp only [List.count_nil, Nat.zero_le, true_and, List.count_cons_self,
    List.count_cons_of_ne (show '{' ≠ '}' by decide)]
  grind

theorem staysOpen_close_cons : StaysOpen k ('}' :: s) ↔ k ≠ 0 ∧ StaysOpen (k - 1) s := by
  have hself : [] ∈ s.inits := (List.mem_inits [] s).2 List.nil_prefix
  unfold StaysOpen
  rw [List.inits_cons, List.forall_mem_cons, List.forall_mem_map]
  simp only [List.count_nil, Nat.zero_le, true_and, List.count_cons_self,
    List.count_cons_of_ne (show '}' ≠ '{' by decide)]
  grind

theorem staysOpen_cons (hopen : c ≠ '{') (hclose : c ≠ '}') : StaysOpen k (c :: s) ↔ StaysOpen k s := by
  unfold StaysOpen
  rw [List.inits_cons, List.forall_mem_cons, List.forall_mem_map]
  simp only [List.count_nil, Nat.zero_le, true_and, List.count_cons_of_ne hopen,
    List.count_cons_of_ne hclose]

/-- Either the brace around the text closes in it, or it stays open. -/
theorem exists_closing_or_staysOpen (k : Nat) (s : List Char) :
    (∃ t v, s = t ++ '}' :: v ∧ StaysOpen k t ∧ t.count '}' = t.count '{' + k) ∨ StaysOpen k s := by
  induction s generalizing k with
  | nil => exact .inr (staysOpen_of_not_mem List.not_mem_nil)
  | cons c s ih =>
    by_cases hopen : c = '{'
    · subst hopen
      refine (ih (k + 1)).imp ?_ staysOpen_open_cons.2
      rintro ⟨t, v, rfl, ht, hcount⟩
      refine ⟨'{' :: t, v, rfl, staysOpen_open_cons.2 ht, ?_⟩
      rw [List.count_cons_self, List.count_cons_of_ne (by decide), hcount]
      omega
    by_cases hclose : c = '}'
    · subst hclose
      cases k with
      | zero => exact .inl ⟨[], s, rfl, (staysOpen_of_not_mem List.not_mem_nil), rfl⟩
      | succ k =>
        refine (ih k).imp ?_ fun hs => staysOpen_close_cons.2 ⟨k.succ_ne_zero, hs⟩
        rintro ⟨t, v, rfl, ht, hcount⟩
        refine ⟨'}' :: t, v, rfl, staysOpen_close_cons.2 ⟨k.succ_ne_zero, ht⟩, ?_⟩
        rw [List.count_cons_self, List.count_cons_of_ne (by decide), hcount]
        omega
    · refine (ih k).imp ?_ (staysOpen_cons hopen hclose).2
      rintro ⟨t, v, rfl, ht, hcount⟩
      refine ⟨c :: t, v, rfl, (staysOpen_cons hopen hclose).2 ht, ?_⟩
      rw [List.count_cons_of_ne hopen, List.count_cons_of_ne hclose, hcount]

/-! ## The search as one over a text -/

/-- Whether the first line of a text is blank. -/
def startsBlank (s : List Char) : Bool := (s.takeWhile (· != '\n')).all Text.isBlank

/-- The number of line feeds that the search for the end of a block reads before it halts, and nothing
where it finds no block. -/
def linesToEnd (b : Braces) : List Char → Option Nat
  | [] => if b.opened then some 0 else none
  | c :: cs =>
    if c = '\n' then
      if !b.opened && startsBlank cs then some 0 else (linesToEnd b cs).map (· + 1)
    else
      match b.read [c] with
      | none => some 0
      | some b' => linesToEnd b' cs

theorem Braces.read_cons : b.read (c :: s) = (b.read [c]).bind (·.read s) := by
  simp only [Braces.read]
  split_ifs <;> rfl

theorem startsBlank_join (hline : '\n' ∉ line) :
    startsBlank (Text.join ['\n'] (line :: below)) = (Text.trim line).isEmpty := by
  have htake : (Text.join ['\n'] (line :: below)).takeWhile (· != '\n') = line := by
    have hall : ∀ c ∈ line, (c != '\n') = true := fun c hc => by
      simpa using fun h : c = '\n' => hline (h ▸ hc)
    cases below with
    | nil => exact List.takeWhile_eq_self_iff.2 hall
    | cons next below =>
      rw [Text.join_cons (List.cons_ne_nil next below), List.takeWhile_append_of_pos hall]
      simp
  rw [startsBlank, htake, Bool.eq_iff_iff, List.isEmpty_iff, Text.trim_eq_nil_iff, List.all_eq_true]

theorem linesToEnd_append_line (hline : '\n' ∉ line) :
    linesToEnd b (line ++ s) = (b.read line).elim (some 0) (linesToEnd · s) := by
  induction line generalizing b with
  | nil => rfl
  | cons c line ih =>
    rw [List.mem_cons, not_or] at hline
    rw [List.cons_append, linesToEnd, if_neg (Ne.symm hline.1), Braces.read_cons (s := line)]
    cases b.read [c] with
    | none => rfl
    | some b' => exact ih hline.2

/-- Reading on a line and then those below it is reading their text. -/
theorem braceEndFrom_eq (hline : '\n' ∉ line) (hbelow : ∀ l ∈ below, '\n' ∉ l) :
    (b.read line).elim k (braceEndFrom (k + 1) · below) =
      ((linesToEnd b (Text.join ['\n'] (line :: below))).map (k + ·)).getD 0 := by
  induction below generalizing k b line with
  | nil =>
    have hjoin : Text.join ['\n'] [line] = line ++ [] := (List.append_nil line).symm
    rw [hjoin, linesToEnd_append_line hline]
    cases b.read line with
    | none => rfl
    | some b' => cases hopened : b'.opened <;> simp [braceEndFrom, linesToEnd, hopened]
  | cons next below ih =>
    rw [List.forall_mem_cons] at hbelow
    rw [Text.join_cons (List.cons_ne_nil next below), linesToEnd_append_line hline]
    cases b.read line with
    | none => rfl
    | some b' =>
      have hnext := ih (k := k + 1) (b := b') hbelow.1 hbelow.2
      have hstep : braceEndFrom (k + 1) b' (next :: below) =
          if !b'.opened && (Text.trim next).isEmpty then k
          else (b'.read next).elim (k + 1) (braceEndFrom (k + 2) · below) := by
        cases hread : b'.read next <;> simp [braceEndFrom, hread]
      simp only [List.singleton_append, Option.elim_some, hstep, hnext, linesToEnd, if_true,
        startsBlank_join hbelow.1]
      split
      · rfl
      · simp [Option.map_map, Function.comp_def, Nat.add_comm, Nat.add_left_comm]

theorem braceBlockEnd_eq (hline : '\n' ∉ line) (hbelow : ∀ l ∈ below, '\n' ∉ l) :
    braceBlockEnd line below =
      (linesToEnd ⟨0, false⟩ (Text.join ['\n'] (line :: below))).getD 0 := by
  have hstart : braceBlockEnd line below =
      (Braces.read ⟨0, false⟩ line).elim 0 (braceEndFrom 1 · below) := by
    cases hread : Braces.read ⟨0, false⟩ line <;> simp [braceBlockEnd, braceEndFrom, hread]
  rw [hstart, braceEndFrom_eq hline hbelow]
  simp

theorem map_add_map_add {o : Option Nat} {m n : Nat} :
    (o.map (· + n)).map (· + m) = o.map (· + (m + n)) := by
  cases o with
  | none => rfl
  | some i => exact congrArg some ((Nat.add_assoc i n m).trans (congrArg (i + ·) (Nat.add_comm n m)))

/-- A character that leaves the state alone is read over, a line feed being counted. -/
theorem linesToEnd_cons (hread : b.read [c] = some b)
    (hline : c = '\n' → b.opened = true ∨ startsBlank s = false) :
    linesToEnd b (c :: s) = (linesToEnd b s).map (· + [c].count '\n') := by
  rw [linesToEnd]
  split
  next hc =>
    subst hc
    obtain h | h := hline rfl <;> simp [h]
  next hc =>
    rw [hread, List.count_eq_zero.2 (by simpa using Ne.symm hc)]
    simp

/-- No search reads more line feeds than there are. -/
theorem linesToEnd_le (h : linesToEnd b s = some n) : n ≤ s.count '\n' := by
  induction s generalizing b n with
  | nil =>
    rw [linesToEnd] at h
    split at h
    · obtain rfl := Option.some.inj h
      exact Nat.le_refl 0
    · cases h
  | cons c s ih =>
    rw [linesToEnd] at h
    split at h
    next hc =>
      subst hc
      split at h
      · obtain rfl := Option.some.inj h
        exact Nat.zero_le _
      · obtain ⟨m, hm, rfl⟩ := Option.map_eq_some_iff.1 h
        rw [List.count_cons_self]
        exact Nat.succ_le_succ (ih hm)
    next hc =>
      rw [List.count_cons_of_ne hc]
      split at h
      · obtain rfl := Option.some.inj h
        exact Nat.zero_le _
      · exact ih h

/-! ## Inside a block -/

/-- A text in which the brace around it stays open is read on to its end. -/
theorem linesToEnd_of_staysOpen (hs : StaysOpen k s) :
    linesToEnd ⟨k + 1, true⟩ (s ++ w) =
      (linesToEnd ⟨k + 1 + s.count '{' - s.count '}', true⟩ w).map (· + s.count '\n') := by
  induction s generalizing k with
  | nil => simp
  | cons c s ih =>
    by_cases hopen : c = '{'
    · subst hopen
      rw [staysOpen_open_cons] at hs
      have hstep : linesToEnd ⟨k + 1, true⟩ ('{' :: s ++ w) = linesToEnd ⟨k + 1 + 1, true⟩ (s ++ w) := rfl
      rw [hstep, ih hs, List.count_cons_self, List.count_cons_of_ne (by decide),
        List.count_cons_of_ne (by decide)]
      congr 3
      omega
    by_cases hclose : c = '}'
    · subst hclose
      obtain ⟨k, rfl⟩ := Nat.exists_eq_succ_of_ne_zero (staysOpen_close_cons.1 hs).1
      have hs' : StaysOpen k s := (staysOpen_close_cons.1 hs).2
      have hstep : linesToEnd ⟨k + 1 + 1, true⟩ ('}' :: s ++ w) = linesToEnd ⟨k + 1, true⟩ (s ++ w) := rfl
      rw [Nat.succ_eq_add_one, hstep, ih hs', List.count_cons_self, List.count_cons_of_ne (by decide),
        List.count_cons_of_ne (by decide)]
      congr 3
      omega
    · rw [staysOpen_cons hopen hclose] at hs
      have hread : Braces.read ⟨k + 1, true⟩ [c] = some ⟨k + 1, true⟩ := by simp [Braces.read, hopen, hclose]
      rw [List.cons_append, linesToEnd_cons hread fun _ => .inl rfl, ih hs, List.count_cons_of_ne hopen,
        List.count_cons_of_ne hclose, map_add_map_add, ← List.singleton_append (l := s), List.count_append]

/-- The block ends at the brace that closes the one around the text. -/
theorem linesToEnd_of_closes (hs : StaysOpen k s) (hcount : s.count '}' = s.count '{' + k) :
    linesToEnd ⟨k + 1, true⟩ (s ++ '}' :: w) = some (s.count '\n') := by
  have hdepth : k + 1 + s.count '{' - s.count '}' = 1 := by omega
  rw [linesToEnd_of_staysOpen hs, hdepth]
  simp [linesToEnd, Braces.read]

/-! ## In front of a block -/

/-- The search for a block passes over `u` in front of `v`: there is no brace that opens, no semicolon, and
below the first line no line starts that is blank. -/
structure PassesOver (u v : List Char) : Prop where
  not_mem_open : '{' ∉ u
  not_mem_semicolon : ';' ∉ u
  startsBlank_eq : ∀ x y, u = x ++ '\n' :: y → startsBlank (y ++ v) = false

theorem passesOver_nil : PassesOver [] v := ⟨List.not_mem_nil, List.not_mem_nil, by simp⟩

theorem passesOver_cons :
    PassesOver (c :: u) v ↔
      c ≠ '{' ∧ c ≠ ';' ∧ (c = '\n' → startsBlank (u ++ v) = false) ∧ PassesOver u v := by
  constructor
  · rintro ⟨hopen, hsemicolon, hblank⟩
    rw [List.mem_cons, not_or] at hopen hsemicolon
    refine ⟨Ne.symm hopen.1, Ne.symm hsemicolon.1, fun hc => hblank [] u (by rw [hc]; rfl), hopen.2,
      hsemicolon.2, fun x y hu => hblank (c :: x) y (by rw [hu]; rfl)⟩
  · rintro ⟨hopen, hsemicolon, hline, hu⟩
    refine ⟨List.not_mem_cons_of_ne_of_not_mem (Ne.symm hopen) hu.not_mem_open,
      List.not_mem_cons_of_ne_of_not_mem (Ne.symm hsemicolon) hu.not_mem_semicolon, ?_⟩
    intro x y heq
    cases x with
    | nil =>
      obtain ⟨rfl, rfl⟩ := List.cons.inj heq
      exact hline rfl
    | cons c' x => exact hu.startsBlank_eq x y (List.cons.inj heq).2

theorem passesOver_append : PassesOver (u ++ v) w ↔ PassesOver u (v ++ w) ∧ PassesOver v w := by
  induction u with
  | nil => exact (and_iff_right passesOver_nil).symm
  | cons c u ih =>
    rw [List.cons_append, passesOver_cons, passesOver_cons, ih, List.append_assoc]
    simp only [and_assoc]

theorem linesToEnd_of_passesOver (hu : PassesOver u v) :
    linesToEnd ⟨0, false⟩ (u ++ v) = (linesToEnd ⟨0, false⟩ v).map (· + u.count '\n') := by
  induction u with
  | nil => simp
  | cons c u ih =>
    obtain ⟨hopen, hsemicolon, hline, hu⟩ := passesOver_cons.1 hu
    have hread : Braces.read ⟨0, false⟩ [c] = some ⟨0, false⟩ := by simp [Braces.read, hopen, hsemicolon]
    rw [List.cons_append, linesToEnd_cons hread fun hc => .inr (hline hc), ih hu, map_add_map_add,
      ← List.singleton_append (l := u), List.count_append]

/-- Behind a text in which a block begins and does not end, the search goes on inside the block. -/
theorem exists_linesToEnd_eq_inside (hu : PassesOver u ('{' :: (t ++ w))) (ht : StaysOpen 0 t) :
    ∃ k, t.count '{' = t.count '}' + k ∧
      linesToEnd ⟨0, false⟩ (u ++ '{' :: t ++ w) =
        (linesToEnd ⟨k + 1, true⟩ w).map (· + (u ++ '{' :: t).count '\n') := by
  obtain ⟨k, hk⟩ := Nat.exists_eq_add_of_le ht.count_le
  rw [Nat.add_zero] at hk
  refine ⟨k, hk, ?_⟩
  have hopen : linesToEnd ⟨0, false⟩ ('{' :: (t ++ w)) = linesToEnd ⟨0 + 1, true⟩ (t ++ w) := rfl
  have hdepth : 0 + 1 + t.count '{' - t.count '}' = k + 1 := by omega
  rw [List.append_assoc, List.cons_append, linesToEnd_of_passesOver hu, hopen, linesToEnd_of_staysOpen ht,
    hdepth, map_add_map_add, List.count_append, List.count_cons_of_ne (by decide)]

/-- The search for the end of a block halts behind `u` where `v` follows: behind a semicolon or the
closing brace of the first block, or at the end of a line with a blank one below it and no block begun. -/
inductive Halts : List Char → List Char → Prop
  | semicolon {u v : List Char} : PassesOver u (';' :: v) → Halts (u ++ [';']) v
  | block {u t v : List Char} : PassesOver u ('{' :: (t ++ '}' :: v)) → IsBalanced '{' '}' t →
      Halts (u ++ '{' :: (t ++ ['}'])) v
  | blankLine {u v : List Char} : PassesOver u ('\n' :: v) → startsBlank v = true → Halts u ('\n' :: v)

theorem Halts.linesToEnd_eq (h : Halts u v) : linesToEnd ⟨0, false⟩ (u ++ v) = some (u.count '\n') := by
  cases h with
  | @semicolon u v hu =>
    have hstop : linesToEnd ⟨0, false⟩ (';' :: v) = some 0 := rfl
    rw [List.append_assoc, List.singleton_append, linesToEnd_of_passesOver hu, hstop, List.count_append]
    simp
  | @block u t v hu ht =>
    have hjoin : u ++ '{' :: (t ++ ['}']) ++ v = u ++ '{' :: (t ++ '}' :: v) := by simp
    have hclose : linesToEnd ⟨0, false⟩ ('{' :: (t ++ '}' :: v)) = some (t.count '\n') :=
      linesToEnd_of_closes (k := 0) ht.2 ht.1.symm
    rw [hjoin, linesToEnd_of_passesOver hu, hclose]
    simp [Nat.add_comm]
  | @blankLine u v hu hblank =>
    rw [linesToEnd_of_passesOver hu, linesToEnd]
    simp [hblank]

theorem Halts.cons (hopen : c ≠ '{') (hsemicolon : c ≠ ';')
    (hline : c = '\n' → startsBlank (u ++ v) = false) (h : Halts u v) : Halts (c :: u) v := by
  cases h with
  | @semicolon u v hu =>
    refine .semicolon (u := c :: u) (passesOver_cons.2 ⟨hopen, hsemicolon, fun hc => ?_, hu⟩)
    simpa using hline hc
  | @block u t v hu ht =>
    refine .block (u := c :: u) (passesOver_cons.2 ⟨hopen, hsemicolon, fun hc => ?_, hu⟩) ht
    simpa using hline hc
  | blankLine hu hblank => exact .blankLine (passesOver_cons.2 ⟨hopen, hsemicolon, hline, hu⟩) hblank

/-- The search halts in a text, passes over it, or is in a block at its end. -/
theorem halts_or_passesOver (s w : List Char) :
    (∃ u v, s = u ++ v ∧ Halts u (v ++ w)) ∨ PassesOver s w ∨
      ∃ u t, s = u ++ '{' :: t ∧ PassesOver u ('{' :: (t ++ w)) ∧ StaysOpen 0 t := by
  induction s with
  | nil => exact .inr (.inl passesOver_nil)
  | cons c s ih =>
    by_cases hopen : c = '{'
    · subst hopen
      obtain ⟨t, v, rfl, ht, hcount⟩ | hs := exists_closing_or_staysOpen 0 s
      · refine .inl ⟨'{' :: (t ++ ['}']), v, by simp, ?_⟩
        exact .block (u := []) passesOver_nil ⟨hcount.symm, ht⟩
      · exact .inr (.inr ⟨[], s, rfl, passesOver_nil, hs⟩)
    by_cases hsemicolon : c = ';'
    · subst hsemicolon
      exact .inl ⟨[';'], s, rfl, .semicolon (u := []) passesOver_nil⟩
    by_cases hblank : c = '\n' ∧ startsBlank (s ++ w) = true
    · obtain ⟨rfl, hblank⟩ := hblank
      exact .inl ⟨[], '\n' :: s, rfl, .blankLine passesOver_nil hblank⟩
    have hline (hc : c = '\n') : startsBlank (s ++ w) = false := by simpa [hc] using hblank
    obtain ⟨u, v, rfl, hhalts⟩ | hs | ⟨u, t, rfl, hu, ht⟩ := ih
    · refine .inl ⟨c :: u, v, rfl, hhalts.cons hopen hsemicolon fun hc => ?_⟩
      simpa using hline hc
    · exact .inr (.inl (passesOver_cons.2 ⟨hopen, hsemicolon, hline, hs⟩))
    · refine .inr (.inr ⟨c :: u, t, rfl, passesOver_cons.2 ⟨hopen, hsemicolon, fun hc => ?_, hu⟩, ht⟩)
      simpa using hline hc

/-! ## Ends of definitions -/

theorem last_eq_of_braces {l : Language} {lines : List (List Char)} {d : Definition}
    (hl : l.blockLayout = .braces) (hlines : ∀ line ∈ lines, '\n' ∉ line)
    (hd : d ∈ definitionsFrom l 0 lines) :
    d.last = d.first + (linesToEnd ⟨0, false⟩ (d.text lines)).getD 0 := by
  obtain ⟨h, hh⟩ := exists_hasHeader hd
  have hbelow : ∀ line ∈ lines.drop (d.first + 1), '\n' ∉ line :=
    fun line hline => hlines line (List.mem_of_mem_drop hline)
  rw [hh.last_eq, hl, Definition.text, hh.after_eq, ← braceBlockEnd_eq (hh.not_mem hlines).2 hbelow]

end Scan

end Flowgraph

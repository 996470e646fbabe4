import Flowgraph.Text.Pattern

/-!
# Captures of patterns

What the text of a capture is made of, read off the pattern.
-/

namespace Flowgraph

namespace Pattern

/-- The ways a pattern can move over a text, whichever it prefers. -/
inductive Moves : Pattern → State → State → Prop
  | empty {s} : Moves empty s s
  | char {p c cs} {s : State} : s.rest = c :: cs → p c = true →
      Moves (char p) s { s with prev := some c, rest := cs, offset := s.offset + 1 }
  | seq {a b s s' r} : Moves a s s' → Moves b s' r → Moves (seq a b) s r
  | preferred {a b s r} : Moves a s r → Moves (alt a b) s r
  | other {a b s r} : Moves b s r → Moves (alt a b) s r
  | stop {greedy a s} : Moves (rounds greedy a) s s
  | again {greedy a s s' r} :
      Moves a s s' → Moves (rounds greedy a) s' r → Moves (rounds greedy a) s r
  | capture {key a} {s r : State} : Moves a s r →
      Moves (capture key a) s
        { r with captures := (key, s.rest.take (r.offset - s.offset)) :: r.captures }
  | textStart {s} : s.prev.isNone = true → Moves textStart s s
  | lineStart {s} : s.atLineStart = true → Moves lineStart s s
  | lineEnd {s} : s.atLineEnd = true → Moves lineEnd s s
  | wordBoundary {s} : s.atWordBoundary = true → Moves wordBoundary s s

variable {q : Char → Prop} {p a : Pattern} {s s' r : State} {next : State → Option State}

/-- Every character that the pattern moves over satisfies `q`. -/
def Spans (q : Char → Prop) : Pattern → Prop
  | char p => ∀ c, p c = true → q c
  | seq a b | alt a b => a.Spans q ∧ b.Spans q
  | rounds _ a | capture _ a => a.Spans q
  | empty | textStart | lineStart | lineEnd | wordBoundary => True

/-- Every character of every capture satisfies `q`. -/
def CapturesOnly (q : Char → Prop) : Pattern → Prop
  | seq a b | alt a b => a.CapturesOnly q ∧ b.CapturesOnly q
  | rounds _ a => a.CapturesOnly q
  | capture _ a => a.Spans q ∧ a.CapturesOnly q
  | char _ | empty | textStart | lineStart | lineEnd | wordBoundary => True

/-! ## Built patterns -/

section Built

variable {b : Pattern}

@[simp]
theorem capturesOnly_seq : (seq a b).CapturesOnly q ↔ a.CapturesOnly q ∧ b.CapturesOnly q := Iff.rfl

@[simp]
theorem capturesOnly_capture {key : Nat} :
    (capture key a).CapturesOnly q ↔ a.Spans q ∧ a.CapturesOnly q := Iff.rfl

@[simp]
theorem capturesOnly_optional : (Pattern.optional a).CapturesOnly q ↔ a.CapturesOnly q :=
  and_iff_left trivial

@[simp]
theorem capturesOnly_many : (many a).CapturesOnly q ↔ a.CapturesOnly q := Iff.rfl

@[simp]
theorem capturesOnly_many1 : (many1 a).CapturesOnly q ↔ a.CapturesOnly q := and_self_iff

@[simp]
theorem capturesOnly_char {p : Char → Bool} : (char p).CapturesOnly q := trivial

@[simp]
theorem capturesOnly_oneOf {w : String} : (oneOf w).CapturesOnly q := trivial

@[simp]
theorem capturesOnly_noneOf {w : String} : (noneOf w).CapturesOnly q := trivial

@[simp]
theorem capturesOnly_blanks : blanks.CapturesOnly q := trivial

@[simp]
theorem capturesOnly_blanks1 : blanks1.CapturesOnly q := ⟨trivial, trivial⟩

@[simp]
theorem capturesOnly_textStart : textStart.CapturesOnly q := trivial

@[simp]
theorem capturesOnly_wordBoundary : wordBoundary.CapturesOnly q := trivial

@[simp]
theorem capturesOnly_text (w : String) : (text w).CapturesOnly q := by
  rw [text]
  induction w.toList with
  | nil => trivial
  | cons c cs ih => exact ⟨trivial, ih⟩

@[simp]
theorem capturesOnly_all {ps : List Pattern} :
    (all ps).CapturesOnly q ↔ ∀ p ∈ ps, p.CapturesOnly q := by
  rw [all]
  induction ps with
  | nil => simp [CapturesOnly]
  | cons p ps ih => simp [ih]

@[simp]
theorem capturesOnly_any {ps : List Pattern} :
    (any ps).CapturesOnly q ↔ ∀ p ∈ ps, p.CapturesOnly q := by
  induction ps using any.induct with
  | case1 => simp [any]
  | case2 p => simp [any]
  | case3 p ps hps ih =>
    rw [any, CapturesOnly, ih, List.forall_mem_cons]
    exact hps

end Built

/-! ## Running -/

theorem exists_moves_of_repeatRounds {greedy : Bool}
    (hround : ∀ {next : State → Option State} {s : State}, run a next s = some r →
      ∃ s', next s' = some r ∧ Moves a s s')
    {n : Nat} (h : repeatRounds greedy (run a) next n s = some r) :
    ∃ s', next s' = some r ∧ Moves (rounds greedy a) s s' := by
  -- The induction is on the bound of the rounds: each may stop or go on, in either preference.
  induction n generalizing s with
  | zero => exact ⟨s, h, .stop⟩
  | succ n ih =>
    have hagain (hrun : run a (fun s' =>
        if s.offset < s'.offset then repeatRounds greedy (run a) next n s' else none) s = some r) :
        ∃ s', next s' = some r ∧ Moves (rounds greedy a) s s' := by
      obtain ⟨s₁, hs₁, hfirst⟩ := hround hrun
      split at hs₁
      · obtain ⟨s₂, hs₂, hrest⟩ := ih hs₁
        exact ⟨s₂, hs₂, .again hfirst hrest⟩
      · cases hs₁
    rw [repeatRounds] at h
    split at h
    · split at h
      next heq =>
        cases h
        exact hagain heq
      next => exact ⟨s, h, .stop⟩
    · split at h
      next heq =>
        cases h
        exact ⟨s, heq, .stop⟩
      next => exact hagain h

/-- A match goes on from a state to which the pattern can move. -/
theorem exists_moves_of_run (h : run p next s = some r) : ∃ s', next s' = some r ∧ Moves p s s' := by
  -- What follows the pattern is any `next`, so that a sequence can pass on its second part.
  induction p generalizing next s with
  | empty => exact ⟨s, h, .empty⟩
  | char p =>
    simp only [run, State.step?] at h
    cases hrest : s.rest with
    | nil => simp [hrest] at h
    | cons c cs =>
      simp only [hrest] at h
      split at h
      next s' heq =>
        split at heq
        next hc =>
          cases heq
          exact ⟨_, h, .char hrest hc⟩
        next => cases heq
      next => cases h
  | seq a b iha ihb =>
    obtain ⟨s₁, hs₁, hfirst⟩ := iha h
    obtain ⟨s₂, hs₂, hrest⟩ := ihb hs₁
    exact ⟨s₂, hs₂, .seq hfirst hrest⟩
  | alt a b iha ihb =>
    rw [run] at h
    split at h
    next heq =>
      cases h
      obtain ⟨s', hs', hmoves⟩ := iha heq
      exact ⟨s', hs', .preferred hmoves⟩
    next =>
      obtain ⟨s', hs', hmoves⟩ := ihb h
      exact ⟨s', hs', .other hmoves⟩
  | rounds greedy a iha => exact exists_moves_of_repeatRounds iha h
  | capture key a iha =>
    obtain ⟨s', hs', hmoves⟩ := iha h
    exact ⟨_, hs', .capture hmoves⟩
  | textStart =>
    obtain ⟨hat, hnext⟩ := Option.ite_none_right_eq_some.1 h
    exact ⟨s, hnext, .textStart hat⟩
  | lineStart =>
    obtain ⟨hat, hnext⟩ := Option.ite_none_right_eq_some.1 h
    exact ⟨s, hnext, .lineStart hat⟩
  | lineEnd =>
    obtain ⟨hat, hnext⟩ := Option.ite_none_right_eq_some.1 h
    exact ⟨s, hnext, .lineEnd hat⟩
  | wordBoundary =>
    obtain ⟨hat, hnext⟩ := Option.ite_none_right_eq_some.1 h
    exact ⟨s, hnext, .wordBoundary hat⟩

/-! ## What has been passed -/

/-- Every character captured so far satisfies `q`. -/
def State.CapturedOnly (q : Char → Prop) (s : State) : Prop := ∀ t ∈ s.captures, ∀ c ∈ t.2, q c

/-- `s'` lies behind what a pattern matches at `s`. -/
def State.Passes (q : Char → Prop) (p : Pattern) (s s' : State) : Prop :=
  ∃ w, s.rest = w ++ s'.rest ∧ s'.offset = s.offset + w.length ∧ (p.Spans q → ∀ c ∈ w, q c) ∧
    (p.CapturesOnly q → s.CapturedOnly q → s'.CapturedOnly q)

theorem State.Passes.refl : State.Passes q p s s := ⟨[], by simp, by simp, by simp, fun _ => id⟩

theorem State.Passes.trans {b : Pattern} (hspans : p.Spans q → a.Spans q ∧ b.Spans q)
    (hcaptures : p.CapturesOnly q → a.CapturesOnly q ∧ b.CapturesOnly q)
    (ha : State.Passes q a s s') (hb : State.Passes q b s' r) : State.Passes q p s r := by
  obtain ⟨v, hv, hvoff, hvspan, hvcap⟩ := ha
  obtain ⟨w, hw, hwoff, hwspan, hwcap⟩ := hb
  have hrest : s.rest = v ++ w ++ r.rest := by rw [hv, hw, List.append_assoc]
  have hoffset : r.offset = s.offset + (v ++ w).length := by
    rw [hwoff, hvoff, List.length_append, Nat.add_assoc]
  refine ⟨v ++ w, hrest, hoffset, fun hp c hc => ?_,
    fun hp hs => hwcap (hcaptures hp).2 (hvcap (hcaptures hp).1 hs)⟩
  rcases List.mem_append.mp hc with hc | hc
  · exact hvspan (hspans hp).1 c hc
  · exact hwspan (hspans hp).2 c hc

theorem State.Passes.of_moves (h : Moves p s s') : State.Passes q p s s' := by
  induction h with
  | empty | textStart | lineStart | lineEnd | wordBoundary | stop => exact .refl
  | char hrest hc =>
    exact ⟨[_], hrest, rfl, fun hp d hd => List.mem_singleton.mp hd ▸ hp _ hc, fun _ => id⟩
  | seq _ _ iha ihb => exact iha.trans id id ihb
  | preferred _ iha => exact iha.trans (fun hp => ⟨hp.1, hp.1⟩) (fun hp => ⟨hp.1, hp.1⟩) .refl
  | other _ ihb => exact ihb.trans (fun hp => ⟨hp.2, hp.2⟩) (fun hp => ⟨hp.2, hp.2⟩) .refl
  | again _ _ ihround ihrest => exact ihround.trans (fun hp => ⟨hp, hp⟩) (fun hp => ⟨hp, hp⟩) ihrest
  | capture _ iha =>
    obtain ⟨w, hw, hoff, hspan, hcap⟩ := iha
    refine ⟨w, hw, hoff, hspan, fun hp hs t ht => ?_⟩
    -- The new capture is the text that has been passed, all others are older.
    rcases List.mem_cons.mp ht with rfl | ht
    · simpa [hw, hoff] using hspan hp.1
    · exact hcap hp.2 hs t ht

/-! ## Bound captures -/

/-- No match of the pattern leaves the capture out. -/
def Binds (key : Nat) : Pattern → Prop
  | seq a b => a.Binds key ∨ b.Binds key
  | alt a b => a.Binds key ∧ b.Binds key
  | capture k a => k = key ∨ a.Binds key
  | char _ | rounds _ _ | empty | textStart | lineStart | lineEnd | wordBoundary => False

section Built

variable {key : Nat} {b : Pattern}

@[simp]
theorem binds_seq : (seq a b).Binds key ↔ a.Binds key ∨ b.Binds key := Iff.rfl

@[simp]
theorem binds_capture {k : Nat} : (capture k a).Binds key ↔ k = key ∨ a.Binds key := Iff.rfl

@[simp]
theorem binds_all {ps : List Pattern} : (all ps).Binds key ↔ ∃ p ∈ ps, p.Binds key := by
  rw [all]
  induction ps with
  | nil => simp [Binds]
  | cons p ps ih => simp [ih]

end Built

/-- The capture has been made. -/
def Bound (key : Nat) (captures : List (Nat × List Char)) : Prop := ∃ t, (key, t) ∈ captures

theorem Moves.captures_subset (h : Moves p s s') : s.captures ⊆ s'.captures := by
  induction h with
  | empty | textStart | lineStart | lineEnd | wordBoundary | stop | char =>
    exact List.Subset.refl _
  | seq _ _ iha ihb => exact List.Subset.trans iha ihb
  | preferred _ ih | other _ ih => exact ih
  | again _ _ ihround ihrest => exact List.Subset.trans ihround ihrest
  | capture _ iha => exact List.Subset.trans iha (List.subset_cons_self ..)

theorem Moves.bound {key : Nat} (h : Moves p s s') (hp : p.Binds key) : Bound key s'.captures := by
  induction h with
  | empty | textStart | lineStart | lineEnd | wordBoundary | stop | char | again => exact hp.elim
  | seq _ hb iha ihb =>
    obtain ha | hb := hp
    · obtain ⟨t, ht⟩ := iha ha
      exact ⟨t, hb.captures_subset ht⟩
    · exact ihb hb
  | preferred _ ih => exact ih hp.1
  | other _ ih => exact ih hp.2
  | capture _ iha =>
    obtain rfl | ha := hp
    · exact ⟨_, List.mem_cons_self⟩
    · obtain ⟨t, ht⟩ := iha ha
      exact ⟨t, List.mem_cons_of_mem _ ht⟩

/-! ## Required characters -/

/-- Every text that the pattern matches holds `c`. -/
def Requires (c : Char) : Pattern → Prop
  | char p => ∀ d, p d = true → d = c
  | seq a b => a.Requires c ∨ b.Requires c
  | alt a b => a.Requires c ∧ b.Requires c
  | capture _ a => a.Requires c
  | rounds _ _ | empty | textStart | lineStart | lineEnd | wordBoundary => False

section Built

variable {c : Char}

theorem requires_text {w : String} (hc : c ∈ w.toList) : (text w).Requires c := by
  rw [text]
  generalize w.toList = ds at hc
  induction ds with
  | nil => cases hc
  | cons d ds ih =>
    obtain rfl | hc := List.mem_cons.1 hc
    · exact .inl fun d hd => eq_of_beq hd
    · exact .inr (ih hc)

theorem requires_all {ps : List Pattern} (hp : p ∈ ps) (hc : p.Requires c) : (all ps).Requires c := by
  rw [all]
  induction ps with
  | nil => cases hp
  | cons q qs ih =>
    obtain rfl | hp := List.mem_cons.1 hp
    · exact .inl hc
    · exact .inr (ih hp)

end Built

theorem Moves.mem_of_requires {c : Char} (h : Moves p s s') (hp : p.Requires c) :
    ∃ w, s.rest = w ++ s'.rest ∧ c ∈ w := by
  induction h with
  | empty | textStart | lineStart | lineEnd | wordBoundary | stop | again => exact hp.elim
  | char hrest hc => exact ⟨[_], hrest, by simp [hp _ hc]⟩
  | seq ha hb iha ihb =>
    obtain ⟨v, hv, -⟩ := State.Passes.of_moves (q := fun _ => True) ha
    obtain ⟨w, hw, -⟩ := State.Passes.of_moves (q := fun _ => True) hb
    obtain hp | hp := hp
    · obtain ⟨v, hv, hc⟩ := iha hp
      exact ⟨v ++ w, by rw [hv, hw, List.append_assoc], List.mem_append_left w hc⟩
    · obtain ⟨w, hw, hc⟩ := ihb hp
      exact ⟨v ++ w, by rw [hv, hw, List.append_assoc], List.mem_append_right v hc⟩
  | preferred _ ih => exact ih hp.1
  | other _ ih => exact ih hp.2
  | capture _ ih => exact ih hp

/-! ## Searching -/

/-- A match with the text in front of it and behind it is the text that was searched, and it is a move
that starts without any captures. -/
theorem exists_moves_of_findAfter? {prev : Option Char} {cs : List Char} {m : Match}
    (h : p.findAfter? prev cs = some m) :
    cs = m.before ++ (m.matched ++ m.after) ∧
      ∃ s s', Moves p s s' ∧ s.captures = [] ∧ s.rest = m.matched ++ m.after ∧
        s'.captures = m.captures ∧ s'.rest = m.after := by
  have hrun {prev : Option Char} {cs : List Char} {r : State}
      (heq : run p some ⟨prev, cs, 0, []⟩ = some r) :
      cs = cs.take r.offset ++ r.rest ∧ Moves p ⟨prev, cs, 0, []⟩ r := by
    obtain ⟨s', hs', hmoves⟩ := exists_moves_of_run heq
    cases hs'
    obtain ⟨w, hw, hoff, -⟩ := State.Passes.of_moves (q := fun _ => True) hmoves
    simp only [Nat.zero_add] at hw hoff
    exact ⟨by rw [hoff, hw, List.take_left], hmoves⟩
  induction cs generalizing prev m with
  | nil =>
    rw [findAfter?] at h
    split at h
    next r heq =>
      cases h
      obtain ⟨hsplit, hmoves⟩ := hrun heq
      exact ⟨hsplit, _, r, hmoves, rfl, hsplit, rfl, rfl⟩
    next => cases h
  | cons c cs ih =>
    rw [findAfter?] at h
    split at h
    next r heq =>
      cases h
      obtain ⟨hsplit, hmoves⟩ := hrun heq
      exact ⟨hsplit, _, r, hmoves, rfl, hsplit, rfl, rfl⟩
    next =>
      obtain ⟨m', hm', rfl⟩ := Option.map_eq_some_iff.mp h
      obtain ⟨hsplit, hmoves⟩ := ih hm'
      exact ⟨congrArg (c :: ·) hsplit, hmoves⟩

theorem eq_append_of_findAfter? {prev : Option Char} {cs : List Char} {m : Match}
    (h : p.findAfter? prev cs = some m) : cs = m.before ++ (m.matched ++ m.after) :=
  (exists_moves_of_findAfter? h).1

/-- A match holds every character that the pattern requires. -/
theorem Requires.mem_matched {c : Char} (hp : p.Requires c) {prev : Option Char} {cs : List Char}
    {m : Match} (h : p.findAfter? prev cs = some m) : c ∈ m.matched := by
  obtain ⟨-, s, s', hmoves, -, hs, -, hs'⟩ := exists_moves_of_findAfter? h
  obtain ⟨w, hw, hc⟩ := hmoves.mem_of_requires hp
  rw [hs, hs', List.append_cancel_right_eq] at hw
  exact hw ▸ hc

/-- Every match of a search for all is one of a search for the leftmost. -/
theorem exists_findAfter?_of_mem_findAll {cs : List Char} {m : Match} (h : m ∈ p.findAll cs) :
    ∃ prev rest, p.findAfter? prev rest = some m := by
  have hall (n : Nat) : ∀ prev rest, m ∈ p.findAllAfter n prev rest →
      ∃ prev rest, p.findAfter? prev rest = some m := by
    induction n with
    | zero => exact fun _ _ h => absurd h List.not_mem_nil
    | succ n ih =>
      intro prev rest h
      rw [findAllAfter] at h
      split at h
      · cases h
      next m' hm' =>
        split at h
        · cases h
        next =>
          obtain rfl | h := List.mem_cons.1 h
          · exact ⟨prev, rest, hm'⟩
          · exact ih _ _ h
  exact hall _ _ _ h

/-- Replacing brings in no characters but those of the replacement. -/
theorem mem_of_mem_replaceAll {cs w : List Char} {c : Char} (hc : c ∈ p.replaceAll w cs) :
    c ∈ w ∨ c ∈ cs := by
  have hall (n : Nat) : ∀ prev rest, ∀ m ∈ p.findAllAfter n prev rest,
      m.before ⊆ rest ∧ m.after ⊆ rest := by
    induction n with
    | zero => exact fun _ _ _ hm => absurd hm List.not_mem_nil
    | succ n ih =>
      intro prev rest m hm
      rw [findAllAfter] at hm
      split at hm
      · cases hm
      next m' hm' =>
        have hrest := eq_append_of_findAfter? hm'
        have hafter : m'.after ⊆ rest := by simp [hrest]
        split at hm
        · cases hm
        next =>
          obtain rfl | hm := List.mem_cons.1 hm
          · exact ⟨by simp [hrest], hafter⟩
          · obtain ⟨hb, ha⟩ := ih _ _ m hm
            exact ⟨List.Subset.trans hb hafter, List.Subset.trans ha hafter⟩
  have hmatches : ∀ m ∈ p.findAll cs, m.before ⊆ cs ∧ m.after ⊆ cs := hall _ _ _
  rw [replaceAll] at hc
  obtain hc | hc := List.mem_append.1 hc
  · obtain ⟨m, hm, hc⟩ := List.mem_flatMap.1 hc
    exact (List.mem_append.1 hc).symm.imp_right fun h => (hmatches m hm).1 h
  · right
    split at hc
    next m hm => exact (hmatches m (List.mem_of_getLast? hm)).2 hc
    next => exact hc

theorem capturedOnly_of_findAfter? (hp : p.CapturesOnly q) {prev : Option Char} {cs : List Char}
    {m : Match} (h : p.findAfter? prev cs = some m) : ∀ t ∈ m.captures, ∀ c ∈ t.2, q c := by
  obtain ⟨-, s, s', hmoves, hs, -, hm, -⟩ := exists_moves_of_findAfter? h
  obtain ⟨-, -, -, -, hcap⟩ := State.Passes.of_moves (q := q) hmoves
  rw [← hm]
  exact hcap hp fun t ht => absurd (hs ▸ ht) List.not_mem_nil

/-- A capture that no match leaves out is made in each. -/
theorem Binds.bound_of_findAfter? {key : Nat} (hp : p.Binds key) {prev : Option Char} {cs : List Char}
    {m : Match} (h : p.findAfter? prev cs = some m) : Bound key m.captures := by
  obtain ⟨-, s, s', hmoves, -, -, hm, -⟩ := exists_moves_of_findAfter? h
  exact hm ▸ hmoves.bound hp

/-- The text of a capture holds only such characters. -/
theorem mem_group_of_find? (hp : p.CapturesOnly q) {cs : List Char} {m : Match}
    (h : p.find? cs = some m) {key : Nat} {c : Char} (hc : c ∈ m.group key) : q c := by
  rw [Match.group] at hc
  split at hc
  next t ht => exact capturedOnly_of_findAfter? hp h t (List.mem_of_find?_eq_some ht) c hc
  next => cases hc

end Pattern

end Flowgraph

import Flowgraph.Text.CharClass

/-!
# Text patterns

Patterns of text, and the search for what they match. A pattern prefers its earlier alternatives and,
in a repetition, more or fewer rounds as the repetition says, and the match found is the preferred one
at the leftmost place where there is any.
-/

namespace Flowgraph

/-- A pattern of text. -/
inductive Pattern where
  | empty
  /-- One character of a class. -/
  | char (p : Char → Bool)
  | seq (first second : Pattern)
  | alt (preferred other : Pattern)
  /-- Any number of rounds, as many as possible where `greedy` and else as few. -/
  | rounds (greedy : Bool) (round : Pattern)
  /-- Remembers the text that `part` matches. -/
  | capture (key : Nat) (part : Pattern)
  | textStart
  | lineStart
  | lineEnd
  | wordBoundary

namespace Pattern

/-! ## Building patterns -/

def text (s : String) : Pattern := s.toList.foldr (fun c p => seq (char (· == c)) p) empty

/-- The patterns one after another. -/
def all (ps : List Pattern) : Pattern := ps.foldr seq empty

/-- The first of the patterns that leads to a match. -/
def any : List Pattern → Pattern
  | [] => char fun _ => false
  | [p] => p
  | p :: ps => alt p (any ps)

def optional (p : Pattern) : Pattern := alt p empty

def many (p : Pattern) : Pattern := rounds true p

def many1 (p : Pattern) : Pattern := seq p (rounds true p)

def oneOf (s : String) : Pattern := char fun c => s.toList.contains c

def noneOf (s : String) : Pattern := char fun c => !s.toList.contains c

def wordChar : Pattern := char Text.isWordChar

def blank : Pattern := char Text.isBlank

/-- Any number of blanks. -/
def blanks : Pattern := many blank

/-- At least one blank. -/
def blanks1 : Pattern := many1 blank

/-! ## Matching -/

/-- A position in a text and what has been captured on the way to it. -/
structure State where
  /-- The character before the position. -/
  prev : Option Char
  rest : List Char
  /-- The number of characters matched. -/
  offset : Nat
  captures : List (Nat × List Char)

namespace State

/-- Moves over a character of the class. -/
def step? (p : Char → Bool) (s : State) : Option State :=
  match s.rest with
  | [] => none
  | c :: cs => if p c then some { s with prev := some c, rest := cs, offset := s.offset + 1 } else none

def atLineStart (s : State) : Bool := s.prev == none || s.prev == some '\n'

def atLineEnd (s : State) : Bool := s.rest.isEmpty || s.rest.head? == some '\n'

/-- Whether a word starts or ends at the position. -/
def atWordBoundary (s : State) : Bool := s.prev.any Text.isWordChar != s.rest.head?.any Text.isWordChar

end State

/-- Rounds of a repetition, at most `n`, of which each must move on. -/
def repeatRounds (greedy : Bool) (round : (State → Option State) → State → Option State)
    (next : State → Option State) : Nat → State → Option State
  | 0, s => next s
  | n + 1, s =>
    let again (_ : Unit) :=
      round (fun s' =>
        if s.offset < s'.offset then repeatRounds greedy round next n s' else none) s
    if greedy then
      match again () with
      | some r => some r
      | none => next s
    else
      match next s with
      | some r => some r
      | none => again ()

/-- Matches a pattern at a position and then the rest of the way, `next`. -/
def run : Pattern → (State → Option State) → State → Option State
  | empty, next, s => next s
  | char p, next, s =>
    match s.step? p with
    | some s' => next s'
    | none => none
  | seq a b, next, s => run a (run b next) s
  | alt a b, next, s =>
    match run a next s with
    | some r => some r
    | none => run b next s
  | rounds greedy a, next, s => repeatRounds greedy (run a) next s.rest.length s
  | capture key a, next, s =>
    run a (fun s' =>
      next { s' with captures := (key, s.rest.take (s'.offset - s.offset)) :: s'.captures }) s
  | textStart, next, s => if s.prev.isNone then next s else none
  | lineStart, next, s => if s.atLineStart then next s else none
  | lineEnd, next, s => if s.atLineEnd then next s else none
  | wordBoundary, next, s => if s.atWordBoundary then next s else none

/-! ## Searching -/

/-- A match, with the text from the start of the search up to it and the text behind it. -/
structure Match where
  before : List Char
  matched : List Char
  after : List Char
  captures : List (Nat × List Char)

/-- The text of a capture; empty where the match passed it by. -/
def Match.group (m : Match) (key : Nat) : List Char :=
  match m.captures.find? fun c => c.1 == key with
  | some c => c.2
  | none => []

/-- The leftmost match behind the character `prev`. -/
def findAfter? (p : Pattern) (prev : Option Char) (s : List Char) : Option Match :=
  match run p some ⟨prev, s, 0, []⟩ with
  | some r => some ⟨[], s.take r.offset, r.rest, r.captures⟩
  | none =>
    match s with
    | [] => none
    | c :: cs => (findAfter? p (some c) cs).map fun m => { m with before := c :: m.before }

/-- The leftmost match in a text. -/
def find? (p : Pattern) (s : List Char) : Option Match := findAfter? p none s

/-- Whether the pattern matches anywhere in the text. -/
def occursIn (p : Pattern) (s : List Char) : Bool := (find? p s).isSome

/-- Whether the pattern matches the whole text. -/
def fits (p : Pattern) (s : List Char) : Bool :=
  (run p (fun r => if r.rest.isEmpty then some r else none) ⟨none, s, 0, []⟩).isSome

/-- At most `n` matches one after another, none of which is empty. -/
def findAllAfter (p : Pattern) : Nat → Option Char → List Char → List Match
  | 0, _, _ => []
  | n + 1, prev, s =>
    match findAfter? p prev s with
    | none => []
    | some m =>
      match m.matched.getLast? with
      | none => []
      | some last => m :: findAllAfter p n (some last) m.after

/-- All matches in a text, from left to right without overlaps. -/
def findAll (p : Pattern) (s : List Char) : List Match := findAllAfter p s.length none s

/-- The text with every match replaced. -/
def replaceAll (p : Pattern) (replacement s : List Char) : List Char :=
  let ms := findAll p s
  let tail :=
    match ms.getLast? with
    | some m => m.after
    | none => s
  (ms.flatMap fun m => m.before ++ replacement) ++ tail

end Pattern

end Flowgraph

import Flowgraph.Toml.Basic
import Flowgraph.Toml.Text

/-!
# Numbers, dates and times in TOML

Numbers may have single underscores between their digits. Of dates and times only their form counts.
-/

namespace Flowgraph.Toml

open Text (isAsciiDigit)

/-! ## Digits -/

/-- The digits behind a digit. An underscore must stand between two digits. -/
def moreDigits? (p : Char → Bool) : List Char → Option (List Char × List Char)
  | [] => some ([], [])
  | '_' :: c :: cs => if p c then (moreDigits? p cs).map fun r => (c :: r.1, r.2) else none
  | c :: cs =>
    if p c then (moreDigits? p cs).map fun r => (c :: r.1, r.2)
    else if c == '_' then none
    else some ([], c :: cs)

/-- The digits at the start of a text, of which there must be one. -/
def digits? (p : Char → Bool) : List Char → Option (List Char × List Char)
  | [] => none
  | c :: cs => if p c then (moreDigits? p cs).map fun r => (c :: r.1, r.2) else none

/-- The digits of a whole number, which has no zero in front. -/
def wholeDigits? : List Char → Option (List Char × List Char)
  | '0' :: cs => some (['0'], cs)
  | s => digits? isAsciiDigit s

/-- The number that digits stand for in a base. -/
def digitsValue (base : Nat) (digits : List Char) : Nat :=
  digits.foldl (fun n c => base * n + (Text.hexValue? c).getD 0) 0

/-! ## Numbers -/

/-- Reads a fraction, whose digits are none where there is no fraction. -/
def readFraction? : List Char → Option (List Char × List Char)
  | '.' :: cs => digits? isAsciiDigit cs
  | s => some ([], s)

/-- Reads an exponent if there is one. -/
def readExponent? : List Char → Option (Option Int × List Char)
  | c :: cs =>
    if c == 'e' || c == 'E' then
      let (negative, unsigned) :=
        match cs with
        | d :: ds => if d == '+' || d == '-' then (d == '-', ds) else (false, cs)
        | [] => (false, [])
      (digits? isAsciiDigit unsigned).map fun (digits, rest) =>
        let n : Int := digitsValue 10 digits
        (some (if negative then -n else n), rest)
    else some (none, c :: cs)
  | [] => some (none, [])

/-- The least number that is nearer to infinity than to any number of 64 bits. -/
def floatBound : Nat := Nat.pow 2 1024 - Nat.pow 2 970

/-- Whether digits times a power of ten are too large for a number of 64 bits. -/
def exceedsFloat (digits : List Char) (exponent : Int) : Bool :=
  let significant := digits.dropWhile (· == '0')
  let size : Int := significant.length + exponent
  if significant.isEmpty || size < 300 then false
  else if 310 < size then true
  else
    let n := digitsValue 10 significant
    decide (floatBound * Nat.pow 10 (-exponent).toNat ≤ n * Nat.pow 10 exponent.toNat)

/-- The largest integer of 64 bits. -/
def maxInteger : Int := 0x7fffffffffffffff

/-- An integer of 64 bits. -/
def boundedInteger? (n : Int) : Option Scalar :=
  if -maxInteger - 1 ≤ n ∧ n ≤ maxInteger then some (.integer n) else none

/-- Reads a decimal number without its sign. A number that is too large must be negative. -/
def readUnsigned? (negative : Bool) (s : List Char) : Option (Scalar × List Char) :=
  match s with
  | 'i' :: 'n' :: 'f' :: rest => some (.float, rest)
  | 'n' :: 'a' :: 'n' :: rest => some (.float, rest)
  | _ => do
    let (whole, rest) ← wholeDigits? s
    let (fraction, rest) ← readFraction? rest
    let (exponent, rest) ← readExponent? rest
    if fraction.isEmpty && exponent.isNone then
      let n : Int := digitsValue 10 whole
      return (← boundedInteger? (if negative then -n else n), rest)
    else if !negative && exceedsFloat (whole ++ fraction) (exponent.getD 0 - fraction.length) then
      none
    else return (.float, rest)

/-- Reads an integer in another base than ten behind its mark. -/
def readBased? (base : Nat) (s : List Char) : Option (Scalar × List Char) :=
  match digits? (fun c => (Text.hexValue? c).any fun d => decide (d < base)) s with
  | none => none
  | some (digits, rest) => (boundedInteger? (digitsValue base digits)).map fun v => (v, rest)

def readNumber? : List Char → Option (Scalar × List Char)
  | '0' :: 'x' :: cs => readBased? 16 cs
  | '0' :: 'o' :: cs => readBased? 8 cs
  | '0' :: 'b' :: cs => readBased? 2 cs
  | '-' :: cs => readUnsigned? true cs
  | '+' :: cs => readUnsigned? false cs
  | cs => readUnsigned? false cs

/-! ## Dates and times -/

/-- The number of exactly `count` digits, and the rest. -/
def fixedDigits? (count : Nat) (s : List Char) : Option (Nat × List Char) :=
  let ds := s.take count
  if ds.length = count ∧ ds.all isAsciiDigit then some (digitsValue 10 ds, s.drop count) else none

def isLeapYear (year : Nat) : Bool :=
  year % 4 == 0 && (year % 100 != 0 || year % 400 == 0)

def daysInMonth (year month : Nat) : Nat :=
  if month = 2 then if isLeapYear year then 29 else 28
  else if month = 4 ∨ month = 6 ∨ month = 9 ∨ month = 11 then 30
  else 31

/-- Drops a character. -/
def dropChar? (c : Char) : List Char → Option (List Char)
  | [] => none
  | d :: cs => if d == c then some cs else none

/-- Drops a two-digit number between two bounds. -/
def dropField? (lo hi : Nat) (s : List Char) : Option (List Char) :=
  match fixedDigits? 2 s with
  | some (n, rest) => if lo ≤ n ∧ n ≤ hi then some rest else none
  | none => none

/-- Drops a date. -/
def dropDate? (s : List Char) : Option (List Char) := do
  let (year, rest) ← fixedDigits? 4 s
  let rest ← dropChar? '-' rest
  let (month, rest) ← fixedDigits? 2 rest
  let rest ← dropChar? '-' rest
  if 1 ≤ month ∧ month ≤ 12 then dropField? 1 (daysInMonth year month) rest else none

/-- Drops the fraction of a second if there is one. -/
def dropSecondFraction? : List Char → Option (List Char)
  | '.' :: cs => if (cs.takeWhile isAsciiDigit).isEmpty then none else some (cs.dropWhile isAsciiDigit)
  | s => some s

/-- Drops a time of day. -/
def dropTime? (s : List Char) : Option (List Char) := do
  let rest ← dropChar? ':' (← dropField? 0 23 s)
  let rest ← dropChar? ':' (← dropField? 0 59 rest)
  dropSecondFraction? (← dropField? 0 60 rest)

/-- Drops the offset of a time zone if there is one. -/
def dropOffset? : List Char → Option (List Char)
  | [] => some []
  | c :: cs =>
    if c == 'Z' || c == 'z' then some cs
    else if c == '+' || c == '-' then do
      dropField? 0 59 (← dropChar? ':' (← dropField? 0 23 cs))
    else some (c :: cs)

/-- Drops the time behind a date if there is one. A blank behind a date need not lead to a time. -/
def dropTimeOfDate? (s : List Char) : Option (List Char) :=
  match s with
  | [] => some []
  | c :: cs =>
    if c == 'T' || c == 't' || c == ' ' then
      if (dropField? 0 23 cs).bind (dropChar? ':') |>.isSome then
        (dropTime? cs).bind dropOffset?
      else some s
    else some s

/-- Drops a date, a time, or both. -/
def dropMoment? (s : List Char) : Option (List Char) :=
  match dropDate? s with
  | some rest => dropTimeOfDate? rest
  | none => dropTime? s

/-! ## Either -/

/-- Reads a number, a date or a time. -/
def readNumeric (s : List Char) : Reading Scalar :=
  match dropMoment? s with
  | some rest => .ok (.time, rest)
  | none =>
    match readNumber? s with
    | some r => .ok r
    | none => .error s

end Flowgraph.Toml

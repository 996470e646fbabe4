import Flowgraph.Text.Alphabetic
import Flowgraph.Text.Number
import Flowgraph.Text.Mark

/-!
# Character classes

The classes of Unicode characters on which names, words and blanks are decided. Below 128 each class
is decided by comparisons alone, and the range tables are consulted only beyond.
-/

namespace Flowgraph.Text

/-- Whether a code point lies in one of the closed ranges. -/
def inRanges (n : Nat) : List (Nat × Nat) → Bool
  | [] => false
  | (lo, hi) :: rest => (decide (lo ≤ n) && decide (n ≤ hi)) || inRanges n rest

def isAsciiUpper (c : Char) : Bool := decide ('A'.toNat ≤ c.toNat) && decide (c.toNat ≤ 'Z'.toNat)

def isAsciiLower (c : Char) : Bool := decide ('a'.toNat ≤ c.toNat) && decide (c.toNat ≤ 'z'.toNat)

def isAsciiLetter (c : Char) : Bool := isAsciiLower c || isAsciiUpper c

def isAsciiDigit (c : Char) : Bool := decide ('0'.toNat ≤ c.toNat) && decide (c.toNat ≤ '9'.toNat)

def isAsciiAlphanumeric (c : Char) : Bool := isAsciiLetter c || isAsciiDigit c

/-- A character with the property `Alphabetic`. -/
def isAlphabetic (c : Char) : Bool :=
  if c.toNat < 128 then isAsciiLetter c else inRanges c.toNat alphabeticRanges

/-- An alphabetic character or a number of any kind. -/
def isAlphanumeric (c : Char) : Bool :=
  if c.toNat < 128 then isAsciiAlphanumeric c
  else inRanges c.toNat alphabeticRanges || inRanges c.toNat digitRanges ||
    inRanges c.toNat numberRanges

/-- A character of a word: alphabetic, decimal digit, mark, connector or join control. -/
def isWordChar (c : Char) : Bool :=
  if c.toNat < 128 then isAsciiAlphanumeric c || c == '_'
  else inRanges c.toNat alphabeticRanges || inRanges c.toNat digitRanges ||
    inRanges c.toNat markRanges

/-- A character with the property `White_Space`. -/
def isBlank (c : Char) : Bool :=
  let n := c.toNat
  if n < 128 then n == 32 || (decide (9 ≤ n) && decide (n ≤ 13))
  else n == 0x85 || n == 0xA0 || n == 0x1680 || (decide (0x2000 ≤ n) && decide (n ≤ 0x200A)) ||
    n == 0x2028 || n == 0x2029 || n == 0x202F || n == 0x205F || n == 0x3000

end Flowgraph.Text

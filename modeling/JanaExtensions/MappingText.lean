import JanaExtensions.Failing
import Mathlib.Algebra.Order.Ring.Int

/-! The text of the detector mapping configuration: lines of tokens with comments, and
the integers in it. -/

namespace JanaExtensions

/-- What an input stream delivers of a file: the text of the lines that can be read, and
whether the end of the file was reached with them. -/
structure FileContent where
  text : String
  eof : Bool
  deriving DecidableEq, Repr

def getLines : List Char → List (List Char)
  | [] => []
  | c :: cs =>
    if c = '\n' then [] :: getLines cs
    else
      match getLines cs with
      | [] => [[c]]
      | line :: lines => (c :: line) :: lines

def isSpace (c : Char) : Bool :=
  c = ' ' || c = '\t' || c = '\n' || c = '\x0b' || c = '\x0c' || c = '\r'

def tokenize (line : List Char) : List String :=
  (((line.takeWhile (· ≠ '#')).splitOnP isSpace).filter (· ≠ [])).map String.ofList

def FileContent.rows (content : FileContent) : List (Nat × List String) :=
  ((getLines content.text.toList).zipIdx 1).map fun line => (line.2, tokenize line.1)

def digitsValue (digits : List Char) : Nat :=
  digits.foldl (fun value digit => 10 * value + (digit.toNat - '0'.toNat)) 0

/-- A token that is a number below the bound, and nothing else. -/
def digitsBelow (bound : Nat) (digits : List Char) : Option Nat :=
  if digits ≠ [] ∧ digits.all Char.isDigit ∧ digitsValue digits < bound then
    some (digitsValue digits)
  else none

def fromCharsUInt64 (token : String) : Option UInt64 :=
  (digitsBelow (2 ^ 64) token.toList).map UInt64.ofNat

def fromCharsUInt32 (token : String) : Option UInt32 :=
  (digitsBelow (2 ^ 32) token.toList).map UInt32.ofNat

def fromCharsInt32 (token : String) : Option Int32 :=
  match token.toList with
  | '-' :: digits => (digitsBelow (2 ^ 31 + 1) digits).map fun n => Int32.ofInt (-n)
  | digits => (digitsBelow (2 ^ 31) digits).map fun n => Int32.ofInt n

theorem ne_empty_of_mem_rows {content : FileContent} {row : Nat × List String}
    (hrow : row ∈ content.rows) {token : String} (h : token ∈ row.2) : token ≠ "" := by
  obtain ⟨line, -, rfl⟩ := List.mem_map.mp hrow
  obtain ⟨chars, hchars, rfl⟩ := List.mem_map.mp h
  have hne : chars ≠ [] := by simpa using (List.mem_filter.mp hchars).2
  intro hempty
  exact hne (by simpa using hempty)

example : tokenize "1\t3 0  # signal".toList = ["1", "3", "0"] := by decide +kernel

end JanaExtensions

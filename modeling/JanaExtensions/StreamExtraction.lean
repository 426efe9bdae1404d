import JanaExtensions.MappingText
import Mathlib.Data.List.DropRight
import Mathlib.Data.List.TakeWhile

/-! Formatted extraction from a line of text: whitespace, and decimal integers that
must fit an `int`. What one extraction reads is a relation between the text, the value
and the text left. -/

namespace JanaExtensions

def skipSpace (input : List Char) : List Char := input.dropWhile isSpace

/-- The sign of a number, and the text after it. -/
def takeSign : List Char → Int × List Char
  | '-' :: following => (-1, following)
  | '+' :: following => (1, following)
  | following => (1, following)

def fitsCInt (value : Int) : Prop := -2 ^ 31 ≤ value ∧ value < 2 ^ 31

instance (value : Int) : Decidable (fitsCInt value) := inferInstanceAs (Decidable (_ ∧ _))

/-- Extraction of an `int`. A stream on which it fails delivers nothing more. -/
def extractInt (input : List Char) : Option (Int × List Char) :=
  let (sign, following) := takeSign (skipSpace input)
  let digits := following.takeWhile Char.isDigit
  if digits ≠ [] ∧ fitsCInt (sign * digitsValue digits) then
    some (sign * digitsValue digits, following.dropWhile Char.isDigit)
  else none

def FileContent.lines (content : FileContent) : List (Nat × List Char) :=
  ((getLines content.text.toList).zipIdx 1).map fun line => (line.2, line.1)

def beforeComment (line : List Char) : List Char := line.takeWhile (· ≠ '#')

def AllSpace (cs : List Char) : Prop := ∀ c ∈ cs, isSpace c = true

def IsDigits (digits : List Char) : Prop := digits ≠ [] ∧ ∀ d ∈ digits, d.isDigit = true

/-- A decimal integer: digits, after at most one sign. -/
inductive Literal : List Char → Int → Prop
  | unsigned {digits : List Char} (h : IsDigits digits) : Literal digits (digitsValue digits)
  | plus {digits : List Char} (h : IsDigits digits) :
      Literal ('+' :: digits) (digitsValue digits)
  | minus {digits : List Char} (h : IsDigits digits) :
      Literal ('-' :: digits) (-digitsValue digits)

/-- The text begins with whitespace and a literal of the value, which is as long as
possible and fits an `int`. -/
def Extracts (input : List Char) (value : Int) (rest : List Char) : Prop :=
  ∃ space literal, input = space ++ (literal ++ rest) ∧ AllSpace space ∧
    Literal literal value ∧ (∀ c ∈ rest.head?, c.isDigit = false) ∧ fitsCInt value

theorem skipSpace_eq_nil {cs : List Char} : skipSpace cs = [] ↔ AllSpace cs :=
  List.dropWhile_eq_nil_iff

theorem skipSpace_append {space cs : List Char} (h : AllSpace space) :
    skipSpace (space ++ cs) = skipSpace cs :=
  List.dropWhile_append_of_pos h

theorem head_dropWhile {p : Char → Bool} {cs : List Char} :
    ∀ c ∈ (cs.dropWhile p).head?, p c = false := by
  intro c hc
  have hh := List.head?_dropWhile_not p cs
  rw [Option.mem_def.mp hc] at hh
  simpa using hh

theorem takeWhile_digits {digits rest : List Char} (h : ∀ d ∈ digits, d.isDigit = true)
    (hrest : ∀ c ∈ rest.head?, c.isDigit = false) :
    (digits ++ rest).takeWhile Char.isDigit = digits ∧
      (digits ++ rest).dropWhile Char.isDigit = rest := by
  rw [List.takeWhile_append_of_pos h, List.dropWhile_append_of_pos h]
  cases rest with
  | nil => simp
  | cons c cs =>
    have hc : c.isDigit = false := hrest c (by simp)
    simp [hc]

theorem isSpace_of_isDigit {c : Char} (h : c.isDigit = true) : isSpace c = false := by
  have hlow : 48 ≤ c.val.toNat := by
    have hh := (Bool.and_eq_true_iff.mp h).1
    exact UInt32.le_iff_toNat_le.mp (of_decide_eq_true hh)
  have hne : ∀ d : Char, d.val.toNat < 48 → c ≠ d := by
    intro d hd he
    rw [he] at hlow
    omega
  simp [isSpace, hne ' ' (by decide), hne '\t' (by decide), hne '\n' (by decide),
    hne '\x0b' (by decide), hne '\x0c' (by decide), hne '\r' (by decide)]

theorem takeSign_of_isDigit {digit : Char} {following : List Char} (h : digit.isDigit = true) :
    takeSign (digit :: following) = (1, digit :: following) := by
  have hminus : digit ≠ '-' := by
    intro he
    rw [he] at h
    exact absurd h (by decide)
  have hplus : digit ≠ '+' := by
    intro he
    rw [he] at h
    exact absurd h (by decide)
  simp [takeSign, hminus, hplus]

theorem literal_of_takeSign {cs following digits : List Char} {sign : Int}
    (hsign : takeSign cs = (sign, following)) (hdigits : IsDigits digits)
    (hpre : digits <+: following) :
    ∃ literal rest, cs = literal ++ rest ∧ Literal literal (sign * digitsValue digits) ∧
      following = digits ++ rest := by
  obtain ⟨rest, rfl⟩ := hpre
  unfold takeSign at hsign
  split at hsign
  · obtain ⟨rfl, rfl⟩ := Prod.mk.inj hsign
    refine ⟨'-' :: digits, rest, rfl, ?_, rfl⟩
    rw [Int.neg_one_mul]
    exact .minus hdigits
  · obtain ⟨rfl, rfl⟩ := Prod.mk.inj hsign
    refine ⟨'+' :: digits, rest, rfl, ?_, rfl⟩
    rw [Int.one_mul]
    exact .plus hdigits
  · obtain ⟨rfl, rfl⟩ := Prod.mk.inj hsign
    refine ⟨digits, rest, rfl, ?_, rfl⟩
    rw [Int.one_mul]
    exact .unsigned hdigits

theorem Literal.skipSpace_takeSign {literal : List Char} {value : Int} (h : Literal literal value)
    (rest : List Char) :
    ∃ sign digits, skipSpace (literal ++ rest) = literal ++ rest ∧
      takeSign (literal ++ rest) = (sign, digits ++ rest) ∧ IsDigits digits ∧
      value = sign * digitsValue digits := by
  cases h with
  | unsigned hd =>
    obtain ⟨d, ds, rfl⟩ := List.exists_cons_of_ne_nil hd.1
    have hdigit : d.isDigit = true := hd.2 d (by simp)
    refine ⟨1, d :: ds, ?_, takeSign_of_isDigit hdigit, hd, (Int.one_mul _).symm⟩
    simp [skipSpace, isSpace_of_isDigit hdigit]
  | plus hd => exact ⟨1, _, rfl, rfl, hd, (Int.one_mul _).symm⟩
  | minus hd => exact ⟨-1, _, rfl, rfl, hd, (Int.neg_one_mul _).symm⟩

theorem extractInt_eq_some_iff {input rest : List Char} {value : Int} :
    extractInt input = some (value, rest) ↔ Extracts input value rest := by
  constructor
  · intro h
    rw [extractInt] at h
    generalize hsign : takeSign (skipSpace input) = signed at h
    obtain ⟨sign, following⟩ := signed
    simp only [Option.ite_none_right_eq_some, Option.some.injEq, Prod.mk.injEq] at h
    obtain ⟨⟨hne, hfits⟩, rfl, rfl⟩ := h
    have hdigits : IsDigits (following.takeWhile Char.isDigit) :=
      ⟨hne, fun d hd => List.mem_takeWhile_imp hd⟩
    obtain ⟨literal, rest, hcs, hliteral, hfollowing⟩ :=
      literal_of_takeSign hsign hdigits (List.takeWhile_prefix _)
    have hrest : rest = following.dropWhile Char.isDigit := by
      have hh := (List.takeWhile_append_dropWhile (p := Char.isDigit) (l := following)).trans
        hfollowing
      exact (List.append_cancel_left hh).symm
    subst hrest
    refine ⟨input.takeWhile isSpace, literal, ?_, fun c hc => List.mem_takeWhile_imp hc, hliteral,
      head_dropWhile, hfits⟩
    rw [← hcs]
    exact List.takeWhile_append_dropWhile.symm
  · intro h
    obtain ⟨space, literal, rfl, hspace, hliteral, hrest, hfits⟩ := h
    obtain ⟨sign, digits, hskip, hsign, hdigits, rfl⟩ := hliteral.skipSpace_takeSign rest
    have hdrop := takeWhile_digits hdigits.2 hrest
    rw [extractInt, skipSpace_append hspace, hskip, hsign]
    simp only [hdrop.1, hdrop.2]
    rw [if_pos ⟨hdigits.1, hfits⟩]

theorem extractInt_skipSpace (input : List Char) :
    extractInt (skipSpace input) = extractInt input := by
  have hidem : skipSpace (skipSpace input) = skipSpace input := List.dropWhile_idempotent _ _
  rw [extractInt, extractInt, hidem]

theorem Extracts.not_allSpace {input rest : List Char} {value : Int}
    (h : Extracts input value rest) : ¬ AllSpace input := by
  intro hspace
  have hinput := extractInt_eq_some_iff.mpr h
  rw [extractInt, skipSpace_eq_nil.mpr hspace] at hinput
  exact absurd hinput (by simp [takeSign])

example : extractInt " +042abc".toList = some (42, "abc".toList) := by decide +kernel

example : extractInt "2147483648 1".toList = none := by decide +kernel

end JanaExtensions

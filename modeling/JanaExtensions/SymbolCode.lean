import Mathlib.Data.List.Basic

/-! Codes that write the symbols of a text one after the other, so that the first symbol can be
read from what is written whatever comes behind it. -/

namespace SymbolCode

variable {α β : Type*}

structure Reads (read : List β → Option (α × List β)) (write : α → List β) : Prop where
  read_write : ∀ symbol rest, read (write symbol ++ rest) = some (symbol, rest)
  write_ne_nil : ∀ symbol, write symbol ≠ []

def readAllIn (read : List β → Option (α × List β)) : Nat → List β → Option (List α)
  | _, [] => some []
  | 0, _ :: _ => none
  | fuel + 1, x :: xs =>
    (read (x :: xs)).bind fun first => (readAllIn read fuel first.2).map (first.1 :: ·)

def readAll (read : List β → Option (α × List β)) (text : List β) : Option (List α) :=
  readAllIn read text.length text

variable {read : List β → Option (α × List β)} {write : α → List β}

theorem Reads.readAllIn_flatMap (h : Reads read write) (symbols : List α) (fuel : Nat)
    (hfuel : (symbols.flatMap write).length ≤ fuel) :
    readAllIn read fuel (symbols.flatMap write) = some symbols := by
  induction symbols generalizing fuel with
  | nil => rw [List.flatMap_nil, readAllIn]
  | cons symbol symbols ih =>
    have hpos : 0 < (write symbol).length := List.length_pos_iff.mpr (h.write_ne_nil symbol)
    rw [List.flatMap_cons, List.length_append] at hfuel
    obtain ⟨fuel, rfl⟩ : ∃ n, fuel = n + 1 := ⟨fuel - 1, by omega⟩
    have hread := h.read_write symbol (symbols.flatMap write)
    obtain ⟨x, xs, htext⟩ := List.exists_cons_of_ne_nil
      (show write symbol ++ symbols.flatMap write ≠ [] by simp [h.write_ne_nil symbol])
    rw [List.flatMap_cons, htext, readAllIn, ← htext, hread, Option.bind_some,
      ih fuel (by omega), Option.map_some]

/-- What has been written can be read. -/
theorem Reads.readAll_flatMap (h : Reads read write) (symbols : List α) :
    readAll read (symbols.flatMap write) = some symbols :=
  h.readAllIn_flatMap symbols _ (Nat.le_refl _)

theorem Reads.flatMap_injective (h : Reads read write) :
    Function.Injective fun symbols : List α => symbols.flatMap write := by
  intro xs ys heq
  have hread := congrArg (readAll read) heq
  rw [h.readAll_flatMap, h.readAll_flatMap] at hread
  exact Option.some.inj hread

end SymbolCode

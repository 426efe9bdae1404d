import JanaExtensions.BitFields
import JanaExtensions.Failing
import JanaExtensions.OrderedMap
import JanaExtensions.WordLoop

/-! What the module parsers share: 32-bit words and their bit ranges, the ways a
parser can fail, the trigger data of a block, and the physics events that the
parsers append. -/

namespace JanaExtensions

/-- The ways a parser call can end without returning. Only `jexception` is an
exception of the program; the other two are undefined behaviour. -/
inductive Fault where
  | jexception (message : String)
  | outOfBounds
  | nullEventHits
  deriving DecidableEq, Repr

def Fault.isThrown : Fault → Bool
  | .jexception _ => true
  | _ => false

def getBitsInRange (value : UInt32) (high low : Nat) : UInt32 :=
  (value >>> UInt32.ofNat low) &&& ((1 <<< UInt32.ofNat (high - low + 1)) - 1)

theorem toNat_getBitsInRange (value : UInt32) {high low : Nat} (hhigh : high < 32)
    (hn : high - low + 1 < 32) (hlow : low ≤ high) :
    (getBitsInRange value high low).toNat = value.toNat / 2 ^ low % 2 ^ (high - low + 1) := by
  have hl : low % 4294967296 % 32 = low := by omega
  have hm : (high - low + 1) % 4294967296 % 32 = high - low + 1 := by omega
  have hp : 2 ^ (high - low + 1) ≤ 2 ^ 31 := Nat.pow_le_pow_right (by omega) (by omega)
  have hpos : 0 < 2 ^ (high - low + 1) := Nat.two_pow_pos _
  have hone : ((1 : UInt32) <<< UInt32.ofNat (high - low + 1) - 1).toNat =
      2 ^ (high - low + 1) - 1 := by
    have hs : ((1 : UInt32) <<< UInt32.ofNat (high - low + 1)).toNat = 2 ^ (high - low + 1) := by
      simp only [UInt32.toNat_shiftLeft, UInt32.toNat_ofNat', hm, UInt32.toNat_one,
        Nat.shiftLeft_eq, Nat.one_mul]
      exact Nat.mod_eq_of_lt (by omega)
    rw [UInt32.toNat_sub_of_le _ _ (by rw [UInt32.le_iff_toNat_le, hs]; exact hpos), hs]
    rfl
  rw [getBitsInRange, UInt32.toNat_and, hone, Nat.and_two_pow_sub_one_eq_mod]
  simp only [UInt32.toNat_shiftRight, UInt32.toNat_ofNat', hl, Nat.shiftRight_eq_div_pow]

theorem getBitsInRange_word {fs : List BitFields.Field} {high low : Nat}
    (hwidth : BitFields.width fs = 32) (hn : high - low + 1 < 32) (hlow : low ≤ high)
    (h : BitFields.aligned (high - low + 1) low fs = true) :
    getBitsInRange (BitFields.word fs) high low = UInt32.ofNat (BitFields.fieldValue low fs) := by
  have hhigh : high < 32 := by
    have := BitFields.aligned_width h
    omega
  have hv := BitFields.pack_div_mod h
  rw [← BitFields.toNat_word hwidth, ← toNat_getBitsInRange _ hhigh hn hlow] at hv
  rw [← hv, UInt32.ofNat_toNat]

/-- A data type defining word: bit 31 set, the data type, and 27 payload bits. -/
def definingWord (dataType : BitVec 4) (payload : List BitFields.Field) : UInt32 :=
  BitFields.word (⟨1, 1⟩ :: ⟨4, dataType⟩ :: payload)

def Defines (d : UInt32) : Prop := getBitsInRange d 31 31 = 1

section DefiningWord

variable {dataType : BitVec 4} {payload : List BitFields.Field}

theorem defines_definingWord (h : BitFields.width payload = 27) :
    Defines (definingWord dataType payload) := by
  have hw : BitFields.width (⟨1, 1⟩ :: ⟨4, dataType⟩ :: payload) = 32 := by simp [h]
  rw [Defines, definingWord, getBitsInRange_word hw (by decide) (by decide)
    (by simp [BitFields.aligned, h])]
  simp [BitFields.fieldValue, h]

theorem dataType_definingWord (h : BitFields.width payload = 27) :
    (getBitsInRange (definingWord dataType payload) 30 27).toNat = dataType.toNat := by
  have hw : BitFields.width (⟨1, 1⟩ :: ⟨4, dataType⟩ :: payload) = 32 := by simp [h]
  have hlt := dataType.isLt
  rw [definingWord, getBitsInRange_word hw (by decide) (by decide)
    (by simp [BitFields.aligned, h])]
  simp only [BitFields.fieldValue, BitFields.width_cons, h]
  exact UInt32.toNat_ofNat_of_lt' (by simp [UInt32.size]; omega)

theorem getBitsInRange_definingWord {high low : Nat} (h : BitFields.width payload = 27)
    (hhigh : high < 27) (hlow : low ≤ high)
    (ha : BitFields.aligned (high - low + 1) low payload = true) :
    getBitsInRange (definingWord dataType payload) high low =
      UInt32.ofNat (BitFields.fieldValue low payload) := by
  have hw : BitFields.width (⟨1, 1⟩ :: ⟨4, dataType⟩ :: payload) = 32 := by simp [h]
  have h1 : ¬ 31 = low := by omega
  have h2 : ¬ 27 = low := by omega
  rw [definingWord, getBitsInRange_word hw (by omega) hlow
    (by simpa [BitFields.aligned, h, h1, h2] using ha)]
  simp [BitFields.fieldValue, h, h1, h2]

end DefiningWord

/-- The loop body of the parsers that tell words apart by bit 31: a data type defining
word is parsed by its data type, and other words are passed over. -/
def dispatch {σ : Type} (parse : Nat → UInt32 → List UInt32 → σ → Except Fault (Nat × σ))
    (d : UInt32) (following : List UInt32) (s : σ) : Except Fault (Nat × σ) :=
  if getBitsInRange d 31 31 = 1 then parse (getBitsInRange d 30 27).toNat d following s
  else .ok (0, s)

theorem dispatch_definingWord {σ : Type}
    (parse : Nat → UInt32 → List UInt32 → σ → Except Fault (Nat × σ)) (dataType : BitVec 4)
    {payload : List BitFields.Field} (h : BitFields.width payload = 27) (following : List UInt32)
    (s : σ) :
    dispatch parse (definingWord dataType payload) following s =
      parse dataType.toNat (definingWord dataType payload) following s := by
  have hd : getBitsInRange (definingWord dataType payload) 31 31 = 1 := defines_definingWord h
  rw [dispatch, if_pos hd, dataType_definingWord h]

theorem toUInt64_ofNat_field {w : Nat} (hw : w ≤ 32) (x : BitVec w) :
    (UInt32.ofNat x.toNat).toUInt64 = UInt64.ofNat x.toNat := by
  have hx : x.toNat < 2 ^ 32 := x.isLt.trans_le (Nat.pow_le_pow_right (by omega) hw)
  refine UInt64.toNat.inj ?_
  rw [UInt32.toNat_toUInt64, UInt32.toNat_ofNat_of_lt' hx,
    UInt64.toNat_ofNat_of_lt' (hx.trans (by decide))]

theorem toNat_ofNat_field {w n : Nat} (hw : w ≤ 32) (hn : n < 2 ^ w) :
    (UInt32.ofNat (BitVec.ofNat w n).toNat).toNat = n := by
  rw [BitVec.toNat_ofNat, Nat.mod_eq_of_lt hn]
  exact UInt32.toNat_ofNat_of_lt' (hn.trans_le (Nat.pow_le_pow_right (by omega) hw))

structure TriggerData where
  firstEventNumber : UInt64
  lastEventNumber : UInt64
  deriving DecidableEq, Repr

/-- Conversion to the 32-bit signed `int` of an event number. -/
def toCInt (n : UInt64) : Int := Int.bmod n.toNat (2 ^ 32)

theorem mod_eq_of_bmod_eq {a b m : Nat} (h : Int.bmod a m = Int.bmod b m) : a % m = b % m := by
  have hmod := congrArg (fun x : Int => x % (m : Int)) h
  simp only [Int.bmod_emod] at hmod
  exact_mod_cast hmod

theorem toNat_mod_eq_of_toCInt_eq {n n' : UInt64} (h : toCInt n = toCInt n') :
    n.toNat % 2 ^ 32 = n'.toNat % 2 ^ 32 :=
  mod_eq_of_bmod_eq h

theorem toCInt_eq_iff {n n' : UInt64} :
    toCInt n = toCInt n' ↔ n.toNat % 2 ^ 32 = n'.toNat % 2 ^ 32 := by
  refine ⟨toNat_mod_eq_of_toCInt_eq, fun h => ?_⟩
  unfold toCInt
  generalize n.toNat = a at *
  generalize n'.toNat = b at *
  rw [← Int.emod_bmod a, ← Int.emod_bmod b, ← Int.natCast_emod, ← Int.natCast_emod, h]

theorem toCInt_toUInt32 (n : UInt64) : toCInt n.toUInt32.toUInt64 = toCInt n := by
  unfold toCInt
  rw [UInt32.toNat_toUInt64, UInt64.toNat_toUInt32]
  generalize n.toNat = m
  have hcast : ((m % 2 ^ 32 : Nat) : Int) = (m : Int) % ((2 ^ 32 : Nat) : Int) :=
    Int.natCast_emod m _
  rw [hcast]
  exact Int.emod_bmod m (2 ^ 32)

structure PhysicsEvent (H : Type) where
  eventNum : Int
  hitsList : List H
  deriving DecidableEq, Repr

variable {H : Type}

def physicsEvents (eventHitsMap : OrderedMap UInt64 H) : List (PhysicsEvent H) :=
  eventHitsMap.entries.map fun eventHit => ⟨toCInt eventHit.1, [eventHit.2]⟩

end JanaExtensions

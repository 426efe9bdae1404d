import Mathlib.Algebra.Order.Ring.Nat
import Mathlib.Tactic.Ring

/-! Words made of adjacent bit fields, most significant field first. A field is
read back by its position and width alone. -/

namespace BitFields

abbrev Field := (w : Nat) × BitVec w

def width (fs : List Field) : Nat := (fs.map Sigma.fst).sum

def pack : List Field → Nat
  | [] => 0
  | f :: fs => f.2.toNat * 2 ^ width fs + pack fs

/-- The value of the field whose lowest bit stands at position `lo`. -/
def fieldValue (lo : Nat) : List Field → Nat
  | [] => 0
  | f :: fs => if width fs = lo then f.2.toNat else fieldValue lo fs

/-- Some field occupies exactly the `n` bits from position `lo`. -/
def aligned (n lo : Nat) : List Field → Bool
  | [] => false
  | f :: fs => if width fs = lo then f.1 == n else aligned n lo fs

@[simp]
theorem width_nil : width [] = 0 := rfl

@[simp]
theorem width_cons (f : Field) (fs : List Field) : width (f :: fs) = f.1 + width fs := by
  simp [width]

theorem pack_lt (fs : List Field) : pack fs < 2 ^ width fs := by
  induction fs with
  | nil => simp [pack, width]
  | cons f fs ih =>
    have hv := f.2.isLt
    calc f.2.toNat * 2 ^ width fs + pack fs
        < f.2.toNat * 2 ^ width fs + 2 ^ width fs := Nat.add_lt_add_left ih _
      _ = (f.2.toNat + 1) * 2 ^ width fs := by ring
      _ ≤ 2 ^ f.1 * 2 ^ width fs := Nat.mul_le_mul_right _ hv
      _ = 2 ^ width (f :: fs) := by rw [width_cons, pow_add]

theorem aligned_width {n lo : Nat} {fs : List Field} (h : aligned n lo fs = true) :
    lo + n ≤ width fs := by
  induction fs with
  | nil => simp [aligned] at h
  | cons f fs ih =>
    rw [width_cons]
    by_cases hw : width fs = lo
    · have hn : f.1 = n := by simpa [aligned, hw] using h
      omega
    · have := ih (by simpa [aligned, hw] using h)
      omega

theorem pack_div_mod {n lo : Nat} {fs : List Field} (h : aligned n lo fs = true) :
    pack fs / 2 ^ lo % 2 ^ n = fieldValue lo fs := by
  induction fs with
  | nil => simp [aligned] at h
  | cons f fs ih =>
    by_cases hw : width fs = lo
    · have hn : f.1 = n := by simpa [aligned, hw] using h
      have hlt : pack fs < 2 ^ lo := hw ▸ pack_lt fs
      have hv : f.2.toNat < 2 ^ n := hn ▸ f.2.isLt
      have hdiv : (f.2.toNat * 2 ^ lo + pack fs) / 2 ^ lo = f.2.toNat := by
        rw [Nat.mul_comm, Nat.mul_add_div (Nat.two_pow_pos lo), Nat.div_eq_of_lt hlt, Nat.add_zero]
      simp only [pack, fieldValue, hw, if_true, hdiv, Nat.mod_eq_of_lt hv]
    · have ha : aligned n lo fs = true := by simpa [aligned, hw] using h
      obtain ⟨c, hc⟩ := Nat.exists_eq_add_of_le (aligned_width ha)
      have hsplit : f.2.toNat * 2 ^ width fs = 2 ^ lo * (2 ^ n * (f.2.toNat * 2 ^ c)) := by
        rw [hc, pow_add, pow_add]
        ring
      simp only [pack, fieldValue, hw, if_false, hsplit]
      rw [Nat.mul_add_div (Nat.two_pow_pos lo), Nat.mul_add_mod, ih ha]

def word (fs : List Field) : UInt32 := UInt32.ofNat (pack fs)

theorem toNat_word {fs : List Field} (h : width fs = 32) : (word fs).toNat = pack fs :=
  UInt32.toNat_ofNat_of_lt' (by simpa only [h] using pack_lt fs : pack fs < 2 ^ 32)

end BitFields

import Ecash.Bytes.Hex
import Mathlib.Data.List.Induction

/-!
# Numbers as bytes
-/
namespace Ecash.Bytes

-- Powers are core's own, whatever else is imported.
attribute [local instance (high)] instPowNat

theorem ofNat_succ (n value : Nat) :
    ofNat (n + 1) value = ofNat n (value / 256) ++ [UInt8.ofNat value] := by
  unfold ofNat
  rw [List.range_succ, List.map_append, List.map_singleton, Nat.add_sub_cancel]
  refine congrArg₂ _ (List.map_congr_left fun i hi => ?_) ?_
  · have hi := List.mem_range.mp hi
    rw [Nat.div_div_eq_div_mul, ← Nat.pow_succ', show (n - 1 - i).succ = n - i by omega]
  · rw [Nat.sub_self, Nat.pow_zero, Nat.div_one]

theorem toNat_concat (bs : Bytes) (b : UInt8) : toNat (bs ++ [b]) = toNat bs * 256 + b.toNat := by
  unfold toNat
  rw [List.foldl_append]
  rfl

/-- The low bytes of a number are the number, up to the bytes left out. -/
theorem toNat_ofNat (n value : Nat) : toNat (ofNat n value) = value % 256 ^ n := by
  induction n generalizing value with
  | zero => rw [Nat.pow_zero, Nat.mod_one]; rfl
  | succ n ih =>
    rw [ofNat_succ, toNat_concat, ih, UInt8.toNat_ofNat', show 256 ^ (n + 1) = 256 * 256 ^ n from Nat.pow_succ',
      Nat.mod_mul]
    omega

/-- Bytes are those of their number. -/
theorem ofNat_toNat (bs : Bytes) : ofNat bs.length (toNat bs) = bs := by
  induction bs using List.reverseRecOn with
  | nil => rfl
  | append_singleton bs b ih =>
    have hb : b.toNat < 256 := b.toNat_lt
    rw [List.length_append, List.length_singleton, ofNat_succ, toNat_concat,
      show (toNat bs * 256 + b.toNat) / 256 = toNat bs by omega, ih]
    congr 2
    rw [← UInt8.toNat_inj, UInt8.toNat_ofNat']
    omega

end Ecash.Bytes

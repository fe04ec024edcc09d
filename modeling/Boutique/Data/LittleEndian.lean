import Mathlib.Data.Nat.Basic
import Mathlib.Tactic.Ring

namespace Boutique.Data

/-! Fixed-width unsigned integers as little-endian byte lists.

`leBytes width value` is what copying an integer of `width` bytes to memory
leaves there, and `leValue` is what copying the bytes back yields. -/

def leBytes : Nat → Nat → List UInt8
  | 0, _ => []
  | width + 1, value => UInt8.ofNat value :: leBytes width (value / 256)

def leValue : List UInt8 → Nat
  | [] => 0
  | byte :: rest => byte.toNat + 256 * leValue rest

@[simp] theorem leBytes_length (width value : Nat) : (leBytes width value).length = width := by
  induction width generalizing value with
  | zero => rfl
  | succ width ih => simp only [leBytes, List.length_cons, ih]

theorem leValue_lt (bytes : List UInt8) : leValue bytes < 256 ^ bytes.length := by
  induction bytes with
  | nil => simp [leValue]
  | cons byte rest ih =>
      have digit := byte.toNat_lt
      simp only [leValue, List.length_cons, pow_succ]
      omega

theorem leValue_leBytes {width value : Nat} (fits : value < 256 ^ width) :
    leValue (leBytes width value) = value := by
  induction width generalizing value with
  | zero => simp only [pow_zero, Nat.lt_one_iff] at fits; simp [leBytes, leValue, fits]
  | succ width ih =>
      have rest : value / 256 < 256 ^ width := by
        rw [pow_succ] at fits
        exact Nat.div_lt_of_lt_mul (by rwa [Nat.mul_comm])
      have low : (UInt8.ofNat value).toNat = value % 256 := UInt8.toNat_ofNat'
      simp only [leBytes, leValue, ih rest, low]
      omega

theorem leValue_leBytes_mod (width value : Nat) :
    leValue (leBytes width value) = value % 256 ^ width := by
  induction width generalizing value with
  | zero => rw [leBytes, leValue, pow_zero, Nat.mod_one]
  | succ width ih =>
      have low : (UInt8.ofNat value).toNat = value % 256 := UInt8.toNat_ofNat'
      rw [leBytes, leValue, ih, low, pow_succ', Nat.mod_mul]

theorem leBytes_leValue (bytes : List UInt8) : leBytes bytes.length (leValue bytes) = bytes := by
  induction bytes with
  | nil => rfl
  | cons byte rest ih =>
      have digit := byte.toNat_lt
      have quotient : (byte.toNat + 256 * leValue rest) / 256 = leValue rest := by omega
      have low : UInt8.ofNat (byte.toNat + 256 * leValue rest) = byte := by
        apply UInt8.toNat_inj.mp
        rw [UInt8.toNat_ofNat']
        omega
      simp only [List.length_cons, leBytes, leValue, quotient, ih, low]

end Boutique.Data

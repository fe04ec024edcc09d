import Mathlib.Data.Nat.Digits.Defs

namespace Boutique.Data

/-! Natural numbers as decimal text. -/

def isDigit (c : UInt8) : Bool := 48 ≤ c && c ≤ 57

def digitOf (d : Nat) : UInt8 := UInt8.ofNat (48 + d)

/-- The value of decimal digits, the most significant of them first. -/
def digitsValue (digits : List UInt8) : Nat :=
  digits.foldl (fun value c => 10 * value + (c.toNat - 48)) 0

/-- The decimal digits of a number. -/
def decimal (n : Nat) : List UInt8 :=
  if n = 0 then [48] else (Nat.digits 10 n).reverse.map digitOf

theorem toNat_digitOf {d : Nat} (small : d < 10) : (digitOf d).toNat = 48 + d := by
  rw [digitOf, UInt8.toNat_ofNat']
  omega

theorem isDigit_digitOf {d : Nat} (small : d < 10) : isDigit (digitOf d) = true := by
  have value := toNat_digitOf small
  rw [isDigit, Bool.and_eq_true, decide_eq_true_iff, decide_eq_true_iff]
  constructor
  · rw [UInt8.le_iff_toNat_le, value]
    exact Nat.le_add_right 48 d
  · rw [UInt8.le_iff_toNat_le, value]
    have bound : (57 : UInt8).toNat = 57 := rfl
    omega

theorem decimal_ne_nil (n : Nat) : decimal n ≠ [] := by
  rw [decimal]
  split
  · exact List.cons_ne_nil _ _
  · rename_i positive
    rw [ne_eq, List.map_eq_nil_iff, List.reverse_eq_nil_iff]
    exact Nat.digits_ne_nil_iff_ne_zero.mpr positive

theorem isDigit_of_mem_decimal {n : Nat} {c : UInt8} (member : c ∈ decimal n) :
    isDigit c = true := by
  rw [decimal] at member
  split at member
  · obtain rfl := List.mem_singleton.mp member
    rfl
  · obtain ⟨d, isIn, rfl⟩ := List.mem_map.mp member
    exact isDigit_digitOf (Nat.digits_lt_base (by omega) (List.mem_reverse.mp isIn))

/-- Digits in front weigh ten times as much for every digit behind them. -/
theorem digitsValue_concat (digits : List UInt8) (c : UInt8) :
    digitsValue (digits ++ [c]) = 10 * digitsValue digits + (c.toNat - 48) := by
  rw [digitsValue, List.foldl_append]
  rfl

theorem digitsValue_reverse_map {digits : List Nat} (small : ∀ d ∈ digits, d < 10) :
    digitsValue (digits.reverse.map digitOf) = Nat.ofDigits 10 digits := by
  induction digits with
  | nil => rfl
  | cons d digits ih =>
      obtain ⟨here, later⟩ := List.forall_mem_cons.mp small
      rw [List.reverse_cons, List.map_append, List.map_singleton, digitsValue_concat, ih later,
        toNat_digitOf here, Nat.ofDigits_cons]
      omega

theorem digitsValue_decimal (n : Nat) : digitsValue (decimal n) = n := by
  rw [decimal]
  split
  · rename_i zero
    rw [zero]
    rfl
  · rw [digitsValue_reverse_map fun d member => Nat.digits_lt_base (by omega) member,
      Nat.ofDigits_digits]

end Boutique.Data

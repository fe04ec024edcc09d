import Mathlib.Data.List.Basic

namespace Boutique.Data

/-! Amounts that are met in instalments, each of which depends on how much has
been met before it. -/

variable {α : Type} {good : Nat → α → Prop} {amount : α → Nat} {sofar : Nat} {payments : List α}

/-- What has been met altogether. -/
def total (amount : α → Nat) : List α → Nat
  | [] => 0
  | payment :: payments => amount payment + total amount payments

@[simp] theorem total_nil : total amount [] = 0 := rfl

@[simp] theorem total_cons (payment : α) (payments : List α) :
    total amount (payment :: payments) = amount payment + total amount payments := rfl

/-- Each payment is good for what was met before it, `sofar` before the first. -/
def Instalments (good : Nat → α → Prop) (amount : α → Nat) : Nat → List α → Prop
  | _, [] => True
  | sofar, payment :: payments =>
      good sofar payment ∧ Instalments good amount (sofar + amount payment) payments

namespace Instalments

/-- What is known of each payment. -/
theorem good_of_split (paid : Instalments good amount sofar payments) {front back : List α}
    {payment : α} (split : payments = front ++ payment :: back) :
    good (sofar + total amount front) payment := by
  induction front generalizing sofar payments with
  | nil =>
      subst split
      exact paid.1
  | cons first front ih =>
      subst split
      rw [total_cons, ← Nat.add_assoc]
      exact ih paid.2 rfl

end Instalments

end Boutique.Data

import Mathlib.Data.List.Basic
import Mathlib.Data.List.Induction

set_option autoImplicit false

-- Numbers written in base ten, one byte a digit.
namespace Libx.Decimal

def isDigit (c : UInt8) : Bool := 48 ≤ c && c ≤ 57

def decimal (num : Nat) : List UInt8 :=
  if num < 10 then [.ofNat (48 + num)] else decimal (num / 10) ++ [.ofNat (48 + num % 10)]

def value (digits : List UInt8) (acc : Nat) : Nat := digits.foldl (fun acc c => acc * 10 + (c.toNat - 48)) acc

def Minimal (digits : List UInt8) : Prop := digits ≠ [] ∧ (digits.head? = some 48 → digits = [48])

theorem is_digit_iff (c : UInt8) : isDigit c = true ↔ 48 ≤ c.toNat ∧ c.toNat ≤ 57 := by
  rw [isDigit, Bool.and_eq_true, decide_eq_true_iff, decide_eq_true_iff, UInt8.le_iff_toNat_le, UInt8.le_iff_toNat_le]
  rfl

theorem digit_value (d : Nat) (small : d < 10) : (UInt8.ofNat (48 + d)).toNat = 48 + d :=
  UInt8.toNat_ofNat_of_lt' (show 48 + d < 256 by omega)

theorem digit_of_value (c : UInt8) (digit : isDigit c = true) : UInt8.ofNat (48 + (c.toNat - 48)) = c := by
  rw [Nat.add_sub_cancel' ((is_digit_iff c).mp digit).1, UInt8.ofNat_toNat]

theorem value_snoc (digits : List UInt8) (c : UInt8) (acc : Nat) :
    value (digits ++ [c]) acc = value digits acc * 10 + (c.toNat - 48) := by
  rw [value, List.foldl_append]
  rfl

theorem acc_le_value (digits : List UInt8) (acc : Nat) : acc ≤ value digits acc := by
  induction digits generalizing acc with
  | nil => exact Nat.le_refl acc
  | cons c digits ih => exact Nat.le_trans (by omega) (ih (acc * 10 + (c.toNat - 48)))

theorem decimal_ne_nil (num : Nat) : decimal num ≠ [] := by
  rw [decimal]
  split <;> simp

theorem decimal_digits (num : Nat) : ∀ c ∈ decimal num, isDigit c = true := by
  induction num using decimal.induct with
  | case1 num small =>
      intro c member
      rw [decimal, if_pos small, List.mem_singleton] at member
      rw [member, is_digit_iff, digit_value num small]
      omega
  | case2 num large ih =>
      intro c member
      rw [decimal, if_neg large] at member
      rcases List.mem_append.mp member with front | last
      · exact ih c front
      · rw [List.mem_singleton.mp last, is_digit_iff, digit_value _ (Nat.mod_lt num (by omega))]
        omega

theorem value_decimal (num : Nat) : value (decimal num) 0 = num := by
  induction num using decimal.induct with
  | case1 num small =>
      rw [decimal, if_pos small]
      show 0 * 10 + ((UInt8.ofNat (48 + num)).toNat - 48) = num
      rw [digit_value num small]
      omega
  | case2 num large ih =>
      rw [decimal, if_neg large, value_snoc, ih, digit_value _ (Nat.mod_lt num (by omega))]
      omega

theorem decimal_minimal (num : Nat) : Minimal (decimal num) := by
  refine ⟨decimal_ne_nil num, ?_⟩
  induction num using decimal.induct with
  | case1 num small =>
      rw [decimal, if_pos small]
      intro zero
      rw [Option.some.inj zero]
  | case2 num large ih =>
      rw [decimal, if_neg large, List.head?_append_of_ne_nil _ (decimal_ne_nil _)]
      intro zero
      have front := congrArg (value · 0) (ih zero)
      rw [value_decimal] at front
      exact absurd (show num / 10 = 0 from front) (by omega)

theorem value_positive (digits : List UInt8) (valid : ∀ c ∈ digits, isDigit c = true) (filled : digits ≠ [])
    (leading : digits.head? ≠ some 48) : 0 < value digits 0 := by
  cases digits with
  | nil => exact absurd rfl filled
  | cons c digits =>
      have digit := (is_digit_iff c).mp (valid c List.mem_cons_self)
      have above : c.toNat ≠ 48 := fun zero => leading (congrArg some (UInt8.toNat_inj.mp zero))
      exact Nat.lt_of_lt_of_le (show 0 < 0 * 10 + (c.toNat - 48) by omega) (acc_le_value digits _)

theorem decimal_value (digits : List UInt8) (valid : ∀ c ∈ digits, isDigit c = true) (minimal : Minimal digits) :
    decimal (value digits 0) = digits := by
  induction digits using List.reverseRecOn with
  | nil => exact absurd rfl minimal.1
  | append_singleton front c ih =>
      have digit := valid c (by simp)
      have bounds := (is_digit_iff c).mp digit
      rw [value_snoc]
      by_cases alone : front = []
      · rw [alone]
        show decimal (0 * 10 + (c.toNat - 48)) = [c]
        rw [Nat.zero_mul, Nat.zero_add, decimal, if_pos (by omega), digit_of_value c digit]
      · have leading : front.head? ≠ some 48 := by
          intro zero
          have whole := minimal.2 (by rw [List.head?_append_of_ne_nil _ alone, zero])
          have lengths := congrArg List.length whole
          rw [List.length_append, List.length_singleton, List.length_singleton] at lengths
          exact alone (List.length_eq_zero_iff.mp (by omega))
        have frontValid : ∀ d ∈ front, isDigit d = true := fun d member => valid d (List.mem_append_left _ member)
        have positive := value_positive front frontValid alone leading
        have tens : (value front 0 * 10 + (c.toNat - 48)) / 10 = value front 0 := by omega
        have ones : (value front 0 * 10 + (c.toNat - 48)) % 10 = c.toNat - 48 := by omega
        rw [decimal, if_neg (by omega), tens, ones, ih frontValid ⟨alone, fun zero => absurd zero leading⟩, digit_of_value c digit]

end Libx.Decimal

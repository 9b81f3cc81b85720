import Mathlib.Data.Nat.Bitwise
import Mathlib.Data.List.Basic

set_option autoImplicit false

-- Words of a fixed number of bits, written one after the other with the
-- highest bit first.
namespace Libx.Bits

def bits : Nat → Nat → List Bool
  | 0, _ => []
  | w + 1, x => x.testBit w :: bits w x

def spell (w : Nat) (words : List Nat) : List Bool := words.flatMap (bits w)

@[simp] theorem bits_length (w x : Nat) : (bits w x).length = w := by
  induction w with
  | zero => rfl
  | succ w ih => rw [bits, List.length_cons, ih]

theorem bits_congr (w x y : Nat) (same : ∀ i < w, x.testBit i = y.testBit i) : bits w x = bits w y := by
  induction w with
  | zero => rfl
  | succ w ih => rw [bits, bits, same w (Nat.lt_succ_self w), ih fun i below => same i (Nat.lt_succ_of_lt below)]

theorem bits_test_bit (w x y i : Nat) (below : i < w) (same : bits w x = bits w y) : x.testBit i = y.testBit i := by
  induction w with
  | zero => exact absurd below (Nat.not_lt_zero i)
  | succ w ih =>
      obtain ⟨top, rest⟩ := List.cons.inj same
      rcases Nat.lt_succ_iff_lt_or_eq.mp below with lower | rfl
      · exact ih lower rest
      · exact top

theorem bits_injective (w x y : Nat) (xSmall : x < 2 ^ w) (ySmall : y < 2 ^ w) (same : bits w x = bits w y) : x = y := by
  apply Nat.eq_of_testBit_eq
  intro i
  by_cases below : i < w
  · exact bits_test_bit w x y i below same
  · have above : 2 ^ w ≤ 2 ^ i := Nat.pow_le_pow_right (by decide) (Nat.not_lt.mp below)
    rw [Nat.testBit_lt_two_pow (by omega), Nat.testBit_lt_two_pow (by omega)]

theorem bits_mod (w v x : Nat) (within : w ≤ v) : bits w (x % 2 ^ v) = bits w x := by
  apply bits_congr
  intro i below
  rw [Nat.testBit_mod_two_pow, decide_eq_true (by omega), Bool.true_and]

theorem bits_append (a b x : Nat) : bits (a + b) x = bits a (x >>> b) ++ bits b x := by
  induction a with
  | zero => simp [bits]
  | succ a ih => rw [Nat.add_right_comm, bits, bits, List.cons_append, ← ih, Nat.testBit_shiftRight, Nat.add_comm b a]

theorem bits_push (len a x d : Nat) (small : d < 2 ^ a) : bits (len + a) (x * 2 ^ a + d) = bits len x ++ bits a d := by
  have high : (x * 2 ^ a + d) >>> a = x := by
    rw [Nat.shiftRight_eq_div_pow, Nat.mul_comm, Nat.mul_add_div (Nat.two_pow_pos a), Nat.div_eq_of_lt small, Nat.add_zero]
  have low : bits a (x * 2 ^ a + d) = bits a d := by
    rw [← bits_mod a a _ le_rfl, Nat.mul_comm, Nat.mul_add_mod, Nat.mod_eq_of_lt small]
  rw [bits_append, high, low]

theorem bits_zero (w : Nat) : bits w 0 = List.replicate w false := by
  induction w with
  | zero => rfl
  | succ w ih => rw [bits, ih, Nat.zero_testBit, List.replicate_succ]

theorem bits_zero_iff (w x : Nat) : bits w x = List.replicate w false ↔ x % 2 ^ w = 0 := by
  rw [← bits_zero, ← bits_mod w w x le_rfl]
  constructor
  · exact bits_injective w _ 0 (Nat.mod_lt x (Nat.two_pow_pos w)) (Nat.two_pow_pos w)
  · intro zero
    rw [zero]

theorem spell_length (w : Nat) (words : List Nat) : (spell w words).length = w * words.length := by
  induction words with
  | nil => rfl
  | cons x words ih => rw [spell, List.flatMap_cons, List.length_append, bits_length, ← spell, ih, List.length_cons, Nat.mul_succ, Nat.add_comm]

theorem spell_injective (w : Nat) (positive : 0 < w) (first second : List Nat) (firstSmall : ∀ x ∈ first, x < 2 ^ w)
    (secondSmall : ∀ x ∈ second, x < 2 ^ w) (same : spell w first = spell w second) : first = second := by
  induction first generalizing second with
  | nil =>
      cases second with
      | nil => rfl
      | cons y second =>
          have lengths := congrArg List.length same
          rw [spell_length, spell_length, List.length_nil, List.length_cons, Nat.mul_succ] at lengths
          omega
  | cons x first ih =>
      cases second with
      | nil =>
          have lengths := congrArg List.length same
          rw [spell_length, spell_length, List.length_nil, List.length_cons, Nat.mul_succ] at lengths
          omega
      | cons y second =>
          rw [spell, spell, List.flatMap_cons, List.flatMap_cons] at same
          obtain ⟨head, tail⟩ := List.append_inj same (by rw [bits_length, bits_length])
          have here := bits_injective w x y (firstSmall x List.mem_cons_self) (secondSmall y List.mem_cons_self) head
          rw [here, ih second (fun z member => firstSmall z (List.mem_cons_of_mem x member))
            (fun z member => secondSmall z (List.mem_cons_of_mem y member)) tail]

end Libx.Bits

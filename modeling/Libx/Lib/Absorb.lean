import Mathlib.Data.List.Basic

set_option autoImplicit false

-- Input taken in by whole blocks, where the last block is held back until more
-- is known to follow.
namespace Libx.Absorb

variable {S α : Type} (size : Nat) (positive : 0 < size) (compress : S → List α → S)

def absorb (state : S) (pending : List α) : S × List α :=
  if size < pending.length ∧ 0 < size then absorb (compress state (pending.take size)) (pending.drop size) else (state, pending)
termination_by pending.length
decreasing_by
  rw [List.length_drop]
  omega

include positive

theorem absorb_whole (state : S) (pending : List α) (more : size < pending.length) :
    absorb size compress state pending = absorb size compress (compress state (pending.take size)) (pending.drop size) := by
  rw [absorb, if_pos ⟨more, positive⟩]

omit positive in
theorem absorb_held (state : S) (pending : List α) (few : pending.length ≤ size) :
    absorb size compress state pending = (state, pending) := by
  rw [absorb, if_neg (fun more => Nat.not_lt.mpr few more.1)]

theorem absorb_held_length (state : S) (pending : List α) : (absorb size compress state pending).2.length ≤ size := by
  induction state, pending using absorb.induct size compress with
  | case1 state pending more ih => rwa [absorb_whole size positive compress state pending more.1]
  | case2 state pending few =>
      have held : pending.length ≤ size := Nat.not_lt.mp fun more => few ⟨more, positive⟩
      rwa [absorb_held size compress state pending held]

theorem absorb_held_some (state : S) (pending : List α) (some_ : pending ≠ []) : (absorb size compress state pending).2 ≠ [] := by
  induction state, pending using absorb.induct size compress with
  | case1 state pending more ih =>
      rw [absorb_whole size positive compress state pending more.1]
      apply ih
      rw [Ne, List.drop_eq_nil_iff]
      omega
  | case2 state pending few =>
      have held : pending.length ≤ size := Nat.not_lt.mp fun more => few ⟨more, positive⟩
      rwa [absorb_held size compress state pending held]

theorem absorb_append (state : S) (pending more : List α) :
    absorb size compress state (pending ++ more) =
      absorb size compress (absorb size compress state pending).1 ((absorb size compress state pending).2 ++ more) := by
  induction state, pending using absorb.induct size compress with
  | case1 state pending whole ih =>
      have longer : size < (pending ++ more).length := by
        rw [List.length_append]
        omega
      rw [absorb_whole size positive compress state (pending ++ more) longer, absorb_whole size positive compress state pending whole.1,
        List.take_append_of_le_length (Nat.le_of_lt whole.1), List.drop_append_of_le_length (Nat.le_of_lt whole.1), ih]
  | case2 state pending few =>
      have held : pending.length ≤ size := Nat.not_lt.mp fun whole => few ⟨whole, positive⟩
      rw [absorb_held size compress state pending held]

theorem absorb_measure (measure : S → Nat → Prop)
    (moves : ∀ state block total, block.length = size → measure state total → measure (compress state block) (total + size))
    (state : S) (pending : List α) (total : Nat) (start : measure state total) :
    ∃ taken, taken + (absorb size compress state pending).2.length = pending.length ∧
      measure (absorb size compress state pending).1 (total + taken) := by
  induction state, pending using absorb.induct size compress generalizing total with
  | case1 state pending more ih =>
      have whole : (pending.take size).length = size := List.length_take_of_le (Nat.le_of_lt more.1)
      obtain ⟨taken, rest, reached⟩ := ih (total + size) (moves state _ total whole start)
      rw [absorb_whole size positive compress state pending more.1]
      rw [List.length_drop] at rest
      exact ⟨size + taken, by omega, by rwa [← Nat.add_assoc]⟩
  | case2 state pending few =>
      have held : pending.length ≤ size := Nat.not_lt.mp fun more => few ⟨more, positive⟩
      rw [absorb_held size compress state pending held]
      exact ⟨0, by rw [Nat.zero_add], start⟩

end Libx.Absorb

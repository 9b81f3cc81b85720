import Mathlib.Data.List.Basic

set_option autoImplicit false

namespace Libx.FirstSeen

-- A table gives every key of a list its number, counting from 1 in the order
-- the keys are first seen. 0 stands for a key that was not seen.
def assign : List Nat → List Nat → Nat → List Nat
  | [], table, _ => table
  | key :: keys, table, position =>
      if table.getD key 0 = 0 then assign keys (table.set key position) (position + 1) else assign keys table position

def table (size : Nat) (keys : List Nat) : List Nat := assign keys (List.replicate size 0) 1

structure Numbered (seen : List Nat) (table : List Nat) (position : Nat) : Prop where
  within : ∀ key ∈ seen, key < table.length
  numbered : ∀ key < table.length, table.getD key 0 ≠ 0 ↔ key ∈ seen
  below : ∀ key, table.getD key 0 < position
  apart : ∀ one other, table.getD one 0 = table.getD other 0 → table.getD one 0 ≠ 0 → one = other
  few : position ≤ seen.length + 1

structure Rising (seen : List Nat) (table : List Nat) (position : Nat) : Prop where
  used : ∀ number, 0 < number → number < position → ∃ key ∈ seen, table.getD key 0 = number
  rising : ∀ one ∈ seen, ∀ other ∈ seen, table.getD one 0 < table.getD other 0 ↔ seen.idxOf one < seen.idxOf other

theorem get_set (table : List Nat) (key other position : Nat) (inside : key < table.length) :
    (table.set key position).getD other 0 = if key = other then position else table.getD other 0 := by
  simp only [List.getD_eq_getElem?_getD, List.getElem?_set, inside, if_true]
  split <;> rfl

theorem numbered_first (seen table : List Nat) (position key : Nat) (numbered : Numbered seen table position)
    (inside : key < table.length) (fresh : table.getD key 0 = 0) :
    Numbered (seen ++ [key]) (table.set key position) (position + 1) where
  within other member := by
    rw [List.length_set]
    rcases List.mem_append.mp member with old | new
    · exact numbered.within other old
    · exact (List.mem_singleton.mp new) ▸ inside
  numbered other bound := by
    rw [List.length_set] at bound
    rw [get_set table key other position inside, List.mem_append, List.mem_singleton]
    have positive := numbered.below key
    by_cases same : key = other
    · rw [if_pos same]
      exact ⟨fun _ => .inr same.symm, fun _ => by omega⟩
    · rw [if_neg same, numbered.numbered other bound]
      exact ⟨.inl, fun either => either.resolve_right (Ne.symm same)⟩
  below other := by
    rw [get_set table key other position inside]
    have old := numbered.below other
    split <;> omega
  apart one other same present := by
    rw [get_set table key one position inside] at same present
    rw [get_set table key other position inside] at same
    have oneBelow := numbered.below one
    have otherBelow := numbered.below other
    by_cases first : key = one
    · by_cases second : key = other
      · exact first.symm.trans second
      · rw [if_pos first, if_neg second] at same
        omega
    · by_cases second : key = other
      · rw [if_neg first, if_pos second] at same
        omega
      · rw [if_neg first, if_neg second] at same
        rw [if_neg first] at present
        exact numbered.apart one other same present
  few := by
    have old := numbered.few
    simp only [List.length_append, List.length_singleton]
    omega

theorem numbered_again (seen table : List Nat) (position key : Nat) (numbered : Numbered seen table position)
    (inside : key < table.length) (known : table.getD key 0 ≠ 0) : Numbered (seen ++ [key]) table position where
  within other member := by
    rcases List.mem_append.mp member with old | new
    · exact numbered.within other old
    · exact (List.mem_singleton.mp new) ▸ inside
  numbered other bound := by
    rw [numbered.numbered other bound, List.mem_append, List.mem_singleton]
    refine ⟨.inl, fun either => either.elim id fun same => ?_⟩
    exact same ▸ (numbered.numbered key inside).mp known
  below := numbered.below
  apart := numbered.apart
  few := by
    have old := numbered.few
    simp only [List.length_append, List.length_singleton]
    omega

theorem rising_first (seen table : List Nat) (position key : Nat) (numbered : Numbered seen table position)
    (rising : Rising seen table position) (inside : key < table.length) (fresh : table.getD key 0 = 0) :
    Rising (seen ++ [key]) (table.set key position) (position + 1) where
  used number positive bound := by
    by_cases last : number = position
    · exact ⟨key, by simp, by rw [get_set table key key position inside, if_pos rfl, last]⟩
    · obtain ⟨other, member, given⟩ := rising.used number positive (by omega)
      have apart : key ≠ other := by
        rintro rfl
        omega
      exact ⟨other, by simp [member], by rw [get_set table key other position inside, if_neg apart, given]⟩
  rising one oneMember other otherMember := by
    have absent : key ∉ seen := fun member => (numbered.numbered key inside).mpr member fresh
    have old (other : Nat) (member : other ∈ seen) : (table.set key position).getD other 0 = table.getD other 0 ∧
        (seen ++ [key]).idxOf other = seen.idxOf other ∧ seen.idxOf other < seen.length := by
      have apart : key ≠ other := fun same => absent (same ▸ member)
      rw [get_set table key other position inside, if_neg apart]
      exact ⟨rfl, List.idxOf_append_of_mem member, List.idxOf_lt_length_of_mem member⟩
    have new : (table.set key position).getD key 0 = position ∧ (seen ++ [key]).idxOf key = seen.length := by
      rw [get_set table key key position inside, if_pos rfl, List.idxOf_append_of_notMem absent]
      simp
    rcases List.mem_append.mp oneMember with oneOld | oneNew
    · rcases List.mem_append.mp otherMember with otherOld | otherNew
      · rw [(old one oneOld).1, (old other otherOld).1, (old one oneOld).2.1, (old other otherOld).2.1]
        exact rising.rising one oneOld other otherOld
      · obtain rfl := List.mem_singleton.mp otherNew
        rw [(old one oneOld).1, (old one oneOld).2.1, new.1, new.2]
        exact iff_of_true (numbered.below one) (old one oneOld).2.2
    · obtain rfl := List.mem_singleton.mp oneNew
      rcases List.mem_append.mp otherMember with otherOld | otherNew
      · rw [(old other otherOld).1, (old other otherOld).2.1, new.1, new.2]
        have below := numbered.below other
        have behind := (old other otherOld).2.2
        exact iff_of_false (by omega) (by omega)
      · obtain rfl := List.mem_singleton.mp otherNew
        exact iff_of_false (Nat.lt_irrefl _) (Nat.lt_irrefl _)

theorem rising_again (seen table : List Nat) (position key : Nat) (rising : Rising seen table position) (known : key ∈ seen) :
    Rising (seen ++ [key]) table position where
  used number positive bound := by
    obtain ⟨other, member, given⟩ := rising.used number positive bound
    exact ⟨other, by simp [member], given⟩
  rising one oneMember other otherMember := by
    have old (other : Nat) (member : other ∈ seen ++ [key]) : other ∈ seen := by
      rcases List.mem_append.mp member with inside | again
      · exact inside
      · exact List.mem_singleton.mp again ▸ known
    rw [List.idxOf_append_of_mem (old one oneMember), List.idxOf_append_of_mem (old other otherMember)]
    exact rising.rising one (old one oneMember) other (old other otherMember)

theorem assign_numbered (keys seen table : List Nat) (position : Nat) (inside : ∀ key ∈ keys, key < table.length)
    (numbered : Numbered seen table position) (rising : Rising seen table position) :
    (assign keys table position).length = table.length ∧
      ∃ last, Numbered (seen ++ keys) (assign keys table position) last ∧ Rising (seen ++ keys) (assign keys table position) last := by
  induction keys generalizing seen table position with
  | nil => exact ⟨rfl, position, by simpa [assign] using numbered, by simpa [assign] using rising⟩
  | cons key keys ih =>
      have here := inside key (by simp)
      by_cases fresh : table.getD key 0 = 0
      · have rest := ih (seen ++ [key]) (table.set key position) (position + 1)
          (fun other member => by simpa using inside other (by simp [member]))
          (numbered_first seen table position key numbered here fresh)
          (rising_first seen table position key numbered rising here fresh)
        rw [assign, if_pos fresh]
        simpa using rest
      · have rest := ih (seen ++ [key]) table position (fun other member => inside other (by simp [member]))
          (numbered_again seen table position key numbered here fresh)
          (rising_again seen table position key rising ((numbered.numbered key here).mp fresh))
        rw [assign, if_neg fresh]
        simpa using rest

theorem table_numbered (size : Nat) (keys : List Nat) (inside : ∀ key ∈ keys, key < size) :
    (table size keys).length = size ∧ ∃ last, Numbered keys (table size keys) last ∧ Rising keys (table size keys) last := by
  have empty (key : Nat) : (List.replicate size 0).getD key 0 = 0 := by
    rw [List.getD_eq_getElem?_getD, List.getElem?_replicate]
    split <;> rfl
  have start : Numbered [] (List.replicate size 0) 1 :=
    { within := by simp
      numbered := fun key _ => by rw [empty key]; simp
      below := fun key => by rw [empty key]; exact Nat.one_pos
      apart := fun one _ _ present => absurd (empty one) present
      few := Nat.le_refl 1 }
  have level : Rising [] (List.replicate size 0) 1 :=
    { used := fun number positive bound => absurd positive (by omega)
      rising := by simp }
  simpa [table] using assign_numbered keys [] (List.replicate size 0) 1 (by simpa using inside) start level

end Libx.FirstSeen

import Libx.Lib.EditDistance
import Libx.Lib.Fallible

set_option autoImplicit false

namespace Libx.Levenshtein

open EditDistance

inductive Fault where
  | badAlloc
  | outOfTable
deriving DecidableEq, Repr

abbrev Table := List Nat

-- A size_t of the source: what a computation leaves once it wraps around.
def sizeT (value : Nat) : Nat := value % 2 ^ 64

-- new size_t[count] and the memset: no array of 2^63 bytes or more can be made.
def allocate (count : Nat) : Except Fault Table := if count < 2 ^ 60 then .ok (List.replicate count 0) else .error .badAlloc

def load (d : Table) (index : Nat) : Except Fault Nat :=
  match d[index]? with
  | some value => .ok value
  | none => .error .outOfTable

def store (d : Table) (index value : Nat) : Except Fault Table :=
  if index < d.length then .ok (d.set index value) else .error .outOfTable

def cell (n i j : Nat) (a c : UInt8) (d : Table) : Except Fault Table :=
  if a = c then do
    let value ← load d (sizeT ((i - 1) * n + (j - 1)))
    store d (sizeT (i * n + j)) value
  else do
    let deletion ← load d (sizeT ((i - 1) * n + j))
    let insertion ← load d (sizeT (i * n + (j - 1)))
    let substitution ← load d (sizeT ((i - 1) * n + (j - 1)))
    store d (sizeT (i * n + j)) (min (deletion + 1) (min (insertion + 1) (substitution + 1)))

-- The loop over s, from place j - 1 on, for the character c of t.
def inner (n i : Nat) (c : UInt8) : List UInt8 → Nat → Table → Except Fault Table
  | [], _, d => .ok d
  | a :: s, j, d => do
      let d ← cell n i j a c d
      inner n i c s (j + 1) d

def outer (n : Nat) (s : List UInt8) : List UInt8 → Nat → Table → Except Fault Table
  | [], _, d => .ok d
  | c :: t, i, d => do
      let d ← inner n i c s 1 d
      outer n s t (i + 1) d

def levenshteinDistance (s t : List UInt8) : Except Fault Nat := do
  let n := s.length + 1
  let m := t.length + 1
  let d ← allocate (sizeT (n * m))
  let d ← outer n s t 1 d
  load d (sizeT (n * m + (2 ^ 64 - 1)))

section Filled

variable (s t : List UInt8)

def value (i j : Nat) : Nat := freeCost (s.take j).reverse (t.take i).reverse

structure Filled (i j : Nat) (d : Table) : Prop where
  size : d.length = (s.length + 1) * (t.length + 1)
  cells : ∀ row column, row ≤ t.length → column ≤ s.length → row < i ∨ row = i ∧ column < j ∨ column = 0 →
    d[row * (s.length + 1) + column]? = some (value s t row column)

theorem value_first_row (j : Nat) : value s t 0 j = 0 := by
  rw [value, List.take_zero, List.reverse_nil, freeCost, cost_nil_right]

theorem value_first_column (i : Nat) : value s t i 0 = 0 := by
  rw [value, List.take_zero, List.reverse_nil, freeCost, cost]

theorem value_next (i j : Nat) (a c : UInt8) (here : s[j]? = some a) (there : t[i]? = some c) :
    value s t (i + 1) (j + 1) =
      if a = c then value s t i j
      else min (value s t i (j + 1) + 1) (min (value s t (i + 1) j + 1) (value s t i j + 1)) := by
  have left : (s.take (j + 1)).reverse = a :: (s.take j).reverse := by rw [List.take_add_one, here]; simp
  have right : (t.take (i + 1)).reverse = c :: (t.take i).reverse := by rw [List.take_add_one, there]; simp
  simp only [value, left, right, freeCost]
  rw [cost]

theorem index_inside (n m row column : Nat) (low : row < m) (short : column < n) : row * n + column < n * m := by
  calc row * n + column < row * n + n := Nat.add_lt_add_left short _
    _ = n * (row + 1) := by rw [Nat.mul_comm n, Nat.succ_mul]
    _ ≤ n * m := Nat.mul_le_mul_left n low

theorem index_apart (n row column otherRow otherColumn : Nat) (short : column < n) (otherShort : otherColumn < n)
    (same : row * n + column = otherRow * n + otherColumn) : row = otherRow ∧ column = otherColumn := by
  have columns := congrArg (· % n) same
  simp only [Nat.mul_add_mod_of_lt short, Nat.mul_add_mod_of_lt otherShort] at columns
  subst columns
  exact ⟨Nat.eq_of_mul_eq_mul_right (by omega) (Nat.add_right_cancel same), rfl⟩

theorem filled_start : Filled s t 1 1 (List.replicate ((s.length + 1) * (t.length + 1)) 0) := by
  refine ⟨List.length_replicate, fun row column low short early => ?_⟩
  have inside := index_inside (s.length + 1) (t.length + 1) row column (Nat.lt_succ_of_le low) (Nat.lt_succ_of_le short)
  have zero : value s t row column = 0 := by
    by_cases first : row = 0
    · rw [first, value_first_row]
    · rw [show column = 0 by omega, value_first_column]
  simp [inside, zero]

theorem filled_store (i j : Nat) (d : Table) (filled : Filled s t i j d) (row : i ≤ t.length) (column : j ≤ s.length) :
    Filled s t i (j + 1) (d.set (i * (s.length + 1) + j) (value s t i j)) := by
  refine ⟨by simpa using filled.size, fun otherRow otherColumn low short early => ?_⟩
  have inside := index_inside (s.length + 1) (t.length + 1) i j (Nat.lt_succ_of_le row) (Nat.lt_succ_of_le column)
  rw [← filled.size] at inside
  by_cases same : i * (s.length + 1) + j = otherRow * (s.length + 1) + otherColumn
  · obtain ⟨rfl, rfl⟩ := index_apart (s.length + 1) i j otherRow otherColumn (Nat.lt_succ_of_le column) (Nat.lt_succ_of_le short) same
    simp [inside]
  · rw [List.getElem?_set_ne same]
    refine filled.cells otherRow otherColumn low short ?_
    have other : ¬ (otherRow = i ∧ otherColumn = j) := by
      rintro ⟨rfl, rfl⟩
      exact same rfl
    omega

theorem filled_row (i : Nat) (d : Table) (filled : Filled s t i (s.length + 1) d) : Filled s t (i + 1) 1 d := by
  refine ⟨filled.size, fun row column low short early => filled.cells row column low short ?_⟩
  omega

theorem size_small (value : Nat) (small : value < 2 ^ 64) : sizeT value = value := Nat.mod_eq_of_lt small

theorem load_cell (d : Table) (index value : Nat) (small : index < 2 ^ 64) (here : d[index]? = some value) :
    load d (sizeT index) = .ok value := by
  rw [size_small index small, load, here]

theorem store_cell (d : Table) (index value : Nat) (small : index < 2 ^ 64) (inside : index < d.length) :
    store d (sizeT index) value = .ok (d.set index value) := by
  rw [size_small index small, store, if_pos inside]

theorem cell_small (fits : (s.length + 1) * (t.length + 1) < 2 ^ 60) (row column : Nat) (low : row ≤ t.length)
    (short : column ≤ s.length) : row * (s.length + 1) + column < 2 ^ 64 := by
  calc row * (s.length + 1) + column
      < (s.length + 1) * (t.length + 1) := index_inside _ _ row column (Nat.lt_succ_of_le low) (Nat.lt_succ_of_le short)
    _ < 2 ^ 64 := fits.trans (by decide)

theorem filled_load (fits : (s.length + 1) * (t.length + 1) < 2 ^ 60) (i j : Nat) (d : Table) (filled : Filled s t i j d)
    (row column : Nat) (low : row ≤ t.length) (short : column ≤ s.length) (early : row < i ∨ row = i ∧ column < j ∨ column = 0) :
    load d (sizeT (row * (s.length + 1) + column)) = .ok (value s t row column) :=
  load_cell d _ _ (cell_small s t fits row column low short) (filled.cells row column low short early)

theorem cell_filled (fits : (s.length + 1) * (t.length + 1) < 2 ^ 60) (i j : Nat) (a c : UInt8) (here : s[j]? = some a)
    (there : t[i]? = some c) (d : Table) (filled : Filled s t (i + 1) (j + 1) d) :
    ∃ after, cell (s.length + 1) (i + 1) (j + 1) a c d = .ok after ∧ Filled s t (i + 1) (j + 2) after := by
  have column : j < s.length := (List.getElem?_eq_some_iff.mp here).1
  have row : i < t.length := (List.getElem?_eq_some_iff.mp there).1
  have above (otherColumn : Nat) (short : otherColumn ≤ s.length) :=
    filled_load s t fits (i + 1) (j + 1) d filled i otherColumn row.le short (.inl (Nat.lt_succ_self i))
  have insertion := filled_load s t fits (i + 1) (j + 1) d filled (i + 1) j row column.le (.inr (.inl ⟨rfl, Nat.lt_succ_self j⟩))
  have inside := index_inside (s.length + 1) (t.length + 1) (i + 1) (j + 1) (Nat.succ_lt_succ row) (Nat.succ_lt_succ column)
  rw [← filled.size] at inside
  have stored (value : Nat) := store_cell d _ value (cell_small s t fits (i + 1) (j + 1) row column) inside
  refine ⟨_, ?_, filled_store s t (i + 1) (j + 1) d filled row column⟩
  rw [cell, value_next s t i j a c here there]
  by_cases same : a = c
  · simp only [same, if_true, Nat.add_sub_cancel, above j column.le, Fallible.ok_bind, stored]
  · simp only [same, if_false, Nat.add_sub_cancel, above j column.le, above (j + 1) column, insertion, Fallible.ok_bind, stored]

theorem inner_filled (fits : (s.length + 1) * (t.length + 1) < 2 ^ 60) (i : Nat) (c : UInt8) (there : t[i]? = some c)
    (front rest : List UInt8) (split : s = front ++ rest) (d : Table) (filled : Filled s t (i + 1) (front.length + 1) d) :
    ∃ after, inner (s.length + 1) (i + 1) c rest (front.length + 1) d = .ok after ∧ Filled s t (i + 2) 1 after := by
  induction rest generalizing front d with
  | nil =>
      rw [List.append_nil] at split
      rw [← split] at filled
      exact ⟨d, rfl, filled_row s t (i + 1) d filled⟩
  | cons a rest ih =>
      have here : s[front.length]? = some a := by simp [split]
      obtain ⟨next, taken, later⟩ := cell_filled s t fits i front.length a c here there d filled
      obtain ⟨after, run, whole⟩ := ih (front ++ [a]) (by simp [split]) next (by simpa using later)
      refine ⟨after, ?_, whole⟩
      rw [inner, taken, Fallible.ok_bind]
      simpa using run

theorem outer_filled (fits : (s.length + 1) * (t.length + 1) < 2 ^ 60) (front rest : List UInt8)
    (split : t = front ++ rest) (d : Table) (filled : Filled s t (front.length + 1) 1 d) :
    ∃ after, outer (s.length + 1) s rest (front.length + 1) d = .ok after ∧ Filled s t (t.length + 1) 1 after := by
  induction rest generalizing front d with
  | nil =>
      rw [List.append_nil] at split
      rw [← split] at filled ⊢
      exact ⟨d, rfl, filled⟩
  | cons c rest ih =>
      have there : t[front.length]? = some c := by simp [split]
      obtain ⟨next, taken, later⟩ := inner_filled s t fits front.length c there [] s rfl d filled
      obtain ⟨after, run, whole⟩ := ih (front ++ [c]) (by simp [split]) next (by simpa using later)
      refine ⟨after, ?_, whole⟩
      rw [outer, show inner (s.length + 1) (front.length + 1) c s 1 d = .ok next from taken, Fallible.ok_bind]
      simpa using run

theorem levenshtein_free (fits : (s.length + 1) * (t.length + 1) < 2 ^ 60) :
    levenshteinDistance s t = .ok (freeCost s.reverse t.reverse) := by
  obtain ⟨after, run, filled⟩ := outer_filled s t fits [] t rfl _ (filled_start s t)
  have last := filled.cells t.length s.length le_rfl le_rfl (by omega)
  have index : (s.length + 1) * (t.length + 1) - 1 = t.length * (s.length + 1) + s.length := by
    rw [Nat.mul_comm, Nat.succ_mul]
    rfl
  have place : sizeT ((s.length + 1) * (t.length + 1) + (2 ^ 64 - 1)) = t.length * (s.length + 1) + s.length := by
    have positive : 0 < (s.length + 1) * (t.length + 1) := Nat.mul_pos (Nat.succ_pos _) (Nat.succ_pos _)
    rw [← index, sizeT]
    omega
  simp only [levenshteinDistance]
  rw [size_small _ (by omega), allocate, if_pos fits, Fallible.ok_bind,
    show outer (s.length + 1) s t 1 _ = .ok after from run, Fallible.ok_bind, place, load, last]
  simp [value]

end Filled

theorem store_inside (d after : Table) (index value : Nat) (stored : store d index value = .ok after) :
    index < d.length ∧ after.length = d.length := by
  rw [store] at stored
  split_ifs at stored with inside
  refine ⟨inside, ?_⟩
  rw [← Except.ok.inj stored, List.length_set]

theorem cell_inside (n i j : Nat) (a c : UInt8) (d after : Table) (run : cell n i j a c d = .ok after) :
    sizeT (i * n + j) < d.length ∧ after.length = d.length := by
  rw [cell] at run
  split_ifs at run
  · obtain ⟨value, -, stored⟩ := (Fallible.bind_ok_iff _ _ _).mp run
    exact store_inside d after _ _ stored
  · obtain ⟨deletion, -, run⟩ := (Fallible.bind_ok_iff _ _ _).mp run
    obtain ⟨insertion, -, run⟩ := (Fallible.bind_ok_iff _ _ _).mp run
    obtain ⟨substitution, -, stored⟩ := (Fallible.bind_ok_iff _ _ _).mp run
    exact store_inside d after _ _ stored

theorem inner_inside (n i : Nat) (c : UInt8) (s : List UInt8) (j : Nat) (d after : Table) (run : inner n i c s j d = .ok after) :
    (∀ column < s.length, sizeT (i * n + (j + column)) < d.length) ∧ after.length = d.length := by
  induction s generalizing j d with
  | nil =>
      obtain rfl := Except.ok.inj run
      exact ⟨by simp, rfl⟩
  | cons a s ih =>
      obtain ⟨next, taken, rest⟩ := (Fallible.bind_ok_iff _ _ _).mp run
      obtain ⟨first, size⟩ := cell_inside n i j a c d next taken
      obtain ⟨others, whole⟩ := ih (j + 1) next rest
      refine ⟨fun column short => ?_, whole.trans size⟩
      cases column with
      | zero => exact first
      | succ column =>
          rw [show j + (column + 1) = j + 1 + column by omega, ← size]
          exact others column (by simpa using short)

theorem outer_inside (n : Nat) (s t : List UInt8) (i : Nat) (d after : Table) (run : outer n s t i d = .ok after)
    (row column : Nat) (low : row < t.length) (short : column < s.length) : sizeT ((i + row) * n + (1 + column)) < d.length := by
  induction t generalizing i d row with
  | nil => simp at low
  | cons c t ih =>
      obtain ⟨next, taken, rest⟩ := (Fallible.bind_ok_iff _ _ _).mp run
      obtain ⟨first, size⟩ := inner_inside n i c s 1 d next taken
      cases row with
      | zero => exact first column short
      | succ row =>
          rw [show i + (row + 1) = i + 1 + row by omega, ← size]
          exact ih (i + 1) next rest row (by simpa using low)

theorem wrapped_fails (s t : List UInt8) (sShort : s.length < 2 ^ 63) (tShort : t.length < 2 ^ 63)
    (large : 2 ^ 60 ≤ (s.length + 1) * (t.length + 1)) (count : Nat) : levenshteinDistance s t ≠ .ok count := by
  intro returned
  obtain ⟨d, made, run⟩ := (Fallible.bind_ok_iff _ _ _).mp returned
  obtain ⟨after, filled, -⟩ := (Fallible.bind_ok_iff _ _ _).mp run
  rw [allocate] at made
  split_ifs at made with small
  have size : d.length = sizeT ((s.length + 1) * (t.length + 1)) := by
    rw [← Except.ok.inj made, List.length_replicate]
  have product : (s.length + 1) * (t.length + 1) = t.length * (s.length + 1) + (s.length + 1) := by
    rw [Nat.mul_comm, Nat.succ_mul]
  have wraps : 2 ^ 64 ≤ (s.length + 1) * (t.length + 1) := by
    by_contra below
    rw [size_small _ (by omega)] at small
    omega
  have column : 0 < s.length := by
    by_contra empty
    rw [show s.length = 0 by omega, Nat.zero_add, Nat.one_mul] at wraps
    omega
  rw [← size] at small
  have rest := Nat.div_mul_le_self d.length (s.length + 1)
  have beyond : d.length < d.length / (s.length + 1) * (s.length + 1) + (s.length + 1) := Nat.lt_div_mul_add (Nat.succ_pos _)
  have row : d.length / (s.length + 1) < t.length := by
    refine Nat.lt_of_mul_lt_mul_right (a := s.length + 1) ?_
    omega
  have reached := outer_inside (s.length + 1) s t 1 d after filled (d.length / (s.length + 1)) 0 row column
  rw [Nat.add_mul, Nat.one_mul] at reached
  rw [size_small _ (by omega)] at reached
  omega

theorem levenshtein_distance_iff (s t : List UInt8) (sShort : s.length < 2 ^ 63) (tShort : t.length < 2 ^ 63) :
    (∃ count, levenshteinDistance s t = .ok count ∧ IsLeast {count | Edits count s t} count) ↔
      (s.length + 1) * (t.length + 1) < 2 ^ 60 ∧
        ∀ count, distance s t ≤ distance (s.drop count) t ∧ distance s t ≤ distance s (t.drop count) := by
  by_cases fits : (s.length + 1) * (t.length + 1) < 2 ^ 60
  · rw [← free_reverse_iff s t]
    constructor
    · rintro ⟨count, returned, least⟩
      rw [levenshtein_free s t fits] at returned
      exact ⟨fits, (Except.ok.inj returned).trans (least.unique (distance_least s t))⟩
    · rintro ⟨-, same⟩
      exact ⟨_, levenshtein_free s t fits, same ▸ distance_least s t⟩
  · constructor
    · rintro ⟨count, returned, -⟩
      exact absurd returned (wrapped_fails s t sShort tShort (by omega) count)
    · intro both
      exact absurd both.1 fits

theorem levenshtein_distance_iff_letters :
    let s : List UInt8 := [97, 98]
    let t : List UInt8 := [99, 98]
    levenshteinDistance s t = .ok 1 ∧ IsLeast {count | Edits count s t} 1 := by
  intro s t
  have returned : levenshteinDistance [97, 98] [99, 98] = .ok 1 := rfl
  have dropped (count : Nat) : distance s t ≤ distance (s.drop count) t ∧ distance s t ≤ distance s (t.drop count) := by
    match count with
    | 0 => exact ⟨le_rfl, le_rfl⟩
    | 1 => simp [distance, cost, s, t]
    | count + 2 =>
        rw [List.drop_of_length_le (Nat.le_add_left 2 count), List.drop_of_length_le (Nat.le_add_left 2 count)]
        simp [distance, cost, s, t]
  obtain ⟨count, same, least⟩ := (levenshtein_distance_iff s t (by decide) (by decide)).mpr ⟨by decide, dropped⟩
  obtain rfl := Except.ok.inj (returned.symm.trans same)
  exact ⟨returned, least⟩

theorem levenshtein_empty : levenshteinDistance [] [97] = .ok 0 ∧ ¬ IsLeast {count | Edits count ([] : List UInt8) [97]} 0 := by
  refine ⟨rfl, fun least => ?_⟩
  exact absurd (edits_zero [] [97] least.1) (by decide)

end Libx.Levenshtein

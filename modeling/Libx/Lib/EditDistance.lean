import Mathlib.Order.Bounds.Basic
import Mathlib.Order.Lattice.Nat

set_option autoImplicit false

-- Single edits of a list, the least number of them between two lists, and the
-- dynamic program for it with any values on its border.
namespace Libx.EditDistance

variable {α : Type}

inductive Edit : List α → List α → Prop where
  | insert (front back : List α) (c : α) : Edit (front ++ back) (front ++ c :: back)
  | delete (front back : List α) (c : α) : Edit (front ++ c :: back) (front ++ back)
  | substitute (front back : List α) (c d : α) : Edit (front ++ c :: back) (front ++ d :: back)

inductive Edits : Nat → List α → List α → Prop where
  | none (s : List α) : Edits 0 s s
  | more (count : Nat) (s middle t : List α) (first : Edit s middle) (rest : Edits count middle t) : Edits (count + 1) s t

theorem edit_cons (c : α) (s t : List α) (edit : Edit s t) : Edit (c :: s) (c :: t) := by
  cases edit with
  | insert front back d => exact .insert (c :: front) back d
  | delete front back d => exact .delete (c :: front) back d
  | substitute front back d e => exact .substitute (c :: front) back d e

theorem edits_cons (c : α) (count : Nat) (s t : List α) (edits : Edits count s t) : Edits count (c :: s) (c :: t) := by
  induction edits with
  | none s => exact .none _
  | more count s middle t first rest ih => exact .more count _ (c :: middle) _ (edit_cons c s middle first) ih

theorem edit_reverse (s t : List α) (edit : Edit s t) : Edit s.reverse t.reverse := by
  cases edit with
  | insert front back c => simpa using Edit.insert back.reverse front.reverse c
  | delete front back c => simpa using Edit.delete back.reverse front.reverse c
  | substitute front back c d => simpa using Edit.substitute back.reverse front.reverse c d

theorem edits_reverse (count : Nat) (s t : List α) (edits : Edits count s t) : Edits count s.reverse t.reverse := by
  induction edits with
  | none s => exact .none _
  | more count s middle t first rest ih => exact .more count _ middle.reverse _ (edit_reverse s middle first) ih

theorem edits_insert_all (t : List α) : Edits t.length [] t := by
  induction t with
  | nil => exact .none _
  | cons c t ih => exact .more t.length _ [c] _ (.insert [] [] c) (edits_cons c _ _ _ ih)

theorem edits_delete_all (s : List α) : Edits s.length s [] := by
  induction s with
  | nil => exact .none _
  | cons c s ih => exact .more s.length _ s _ (.delete [] s c) ih

theorem edits_zero (s t : List α) (edits : Edits 0 s t) : s = t := by
  cases edits with
  | none => rfl

section Cost

variable [DecidableEq α] (edge : Nat → Nat)

def cost : List α → List α → Nat
  | [], t => edge t.length
  | a :: s, [] => edge (s.length + 1)
  | a :: s, b :: t =>
      if a = b then cost s t else min (cost (a :: s) t + 1) (min (cost s (b :: t) + 1) (cost s t + 1))
termination_by s t => s.length + t.length

def distance (s t : List α) : Nat := cost id s t

theorem cost_nil_right (s : List α) : cost edge s [] = edge s.length := by
  cases s with
  | nil => rw [cost]
  | cons a s => rw [cost, List.length_cons]

theorem cost_match (a : α) (s t : List α) : cost edge (a :: s) (a :: t) = cost edge s t := by rw [cost, if_pos rfl]

theorem cost_differ (a b : α) (s t : List α) (differ : a ≠ b) :
    cost edge (a :: s) (b :: t) = min (cost edge (a :: s) t + 1) (min (cost edge s (b :: t) + 1) (cost edge s t + 1)) := by
  rw [cost, if_neg differ]

theorem cost_symm (s t : List α) : cost edge s t = cost edge t s := by
  induction s, t using cost.induct with
  | case1 t => rw [cost_nil_right, cost]
  | case2 a s => rw [cost_nil_right, cost, List.length_cons]
  | case3 s a t ih => rw [cost_match, cost_match, ih]
  | case4 a s b t differ ihInsert ihDelete ihSubstitute =>
      rw [cost_differ edge a b s t differ, cost_differ edge b a t s (Ne.symm differ), ihInsert, ihDelete, ihSubstitute,
        Nat.min_left_comm]

theorem distance_nil_left (t : List α) : distance [] t = t.length := by rw [distance, cost, id]

theorem distance_nil_right (s : List α) : distance s [] = s.length := by rw [distance, cost_nil_right, id]

theorem distance_self (s : List α) : distance s s = 0 := by
  induction s with
  | nil => rw [distance_nil_left, List.length_nil]
  | cons a s ih => rw [distance, cost_match, ← distance, ih]

theorem distance_steps (size : Nat) (s t : List α) (small : s.length + t.length ≤ size) :
    (∀ a, distance (a :: s) t ≤ distance s t + 1) ∧ ∀ b, distance s t ≤ distance s (b :: t) + 1 := by
  induction size generalizing s t with
  | zero =>
      obtain rfl : s = [] := List.length_eq_zero_iff.mp (by omega)
      obtain rfl : t = [] := List.length_eq_zero_iff.mp (by omega)
      simp [distance_nil_left, distance_nil_right]
  | succ size ih =>
      constructor
      · intro a
        cases t with
        | nil => simp [distance_nil_right]
        | cons b t =>
            simp only [List.length_cons] at small
            by_cases same : a = b
            · subst same
              rw [distance, cost_match]
              exact (ih s t (by omega)).2 a
            · rw [distance, cost_differ id a b s t same]
              exact (Nat.min_le_right _ _).trans (Nat.min_le_left _ _)
      · intro b
        cases s with
        | nil =>
            simp only [distance_nil_left, List.length_cons]
            omega
        | cons a s =>
            simp only [List.length_cons] at small
            obtain ⟨delete, insert⟩ := ih s t (by omega)
            have deleted := delete a
            have inserted := insert b
            by_cases same : a = b
            · subst same
              rw [distance, distance, cost_match]
              exact deleted
            · rw [distance, distance, cost_differ id a b s t same]
              simp only [distance] at deleted inserted
              omega

theorem distance_symm (s t : List α) : distance s t = distance t s := cost_symm id s t

theorem distance_delete (a : α) (s t : List α) : distance (a :: s) t ≤ distance s t + 1 := (distance_steps _ s t le_rfl).1 a

theorem distance_insert (a : α) (s t : List α) : distance s t ≤ distance (a :: s) t + 1 := by
  rw [distance_symm s t, distance_symm (a :: s) t]
  exact (distance_steps _ t s le_rfl).2 a

theorem distance_extend (b : α) (s t : List α) : distance s (b :: t) ≤ distance s t + 1 := by
  rw [distance_symm s t, distance_symm s (b :: t)]
  exact distance_delete b t s

theorem distance_both (a b : α) (s t : List α) : distance (a :: s) (b :: t) ≤ distance s t + 1 := by
  by_cases same : a = b
  · subst same
    rw [distance, cost_match]
    exact Nat.le_succ _
  · rw [distance, cost_differ id a b s t same]
    exact (Nat.min_le_right _ _).trans (Nat.min_le_right _ _)

theorem distance_substitute (c d : α) (s t : List α) : distance (c :: s) t ≤ distance (d :: s) t + 1 := by
  induction t with
  | nil => simp [distance_nil_right]
  | cons b t ih =>
      have both := distance_both c b s t
      by_cases same : d = b
      · subst same
        rw [distance, distance, cost_match]
        exact both
      · have shared := distance_extend b (c :: s) t
        have deleted := distance_delete c s (b :: t)
        rw [distance, distance, cost_differ id d b s t same]
        simp only [distance] at ih both shared deleted ⊢
        omega

theorem distance_cons (c : α) (x y : List α) (near : ∀ t, distance x t ≤ distance y t + 1) (t : List α) :
    distance (c :: x) t ≤ distance (c :: y) t + 1 := by
  induction t with
  | nil =>
      have lengths := near []
      simp only [distance_nil_right, List.length_cons] at lengths ⊢
      omega
  | cons b t ih =>
      by_cases same : c = b
      · subst same
        simp only [distance, cost_match] at near ⊢
        exact near t
      · have behind := near (b :: t)
        have rest := near t
        simp only [distance, cost_differ id c b _ t same] at ih behind rest ⊢
        omega

theorem distance_edit (s s' t : List α) (edit : Edit s s') : distance s t ≤ distance s' t + 1 := by
  have prepended (front x y : List α) (near : ∀ t, distance x t ≤ distance y t + 1) (t : List α) :
      distance (front ++ x) t ≤ distance (front ++ y) t + 1 := by
    induction front generalizing t with
    | nil => exact near t
    | cons c front ih => exact distance_cons c _ _ ih t
  cases edit with
  | insert front back c => exact prepended front _ _ (distance_insert c back) t
  | delete front back c => exact prepended front _ _ (distance_delete c back) t
  | substitute front back c d => exact prepended front _ _ (distance_substitute c d back) t

theorem distance_le (count : Nat) (s t : List α) (edits : Edits count s t) : distance s t ≤ count := by
  induction edits with
  | none s => rw [distance_self]
  | more count s middle t first rest ih =>
      calc distance s t ≤ distance middle t + 1 := distance_edit s middle t first
        _ ≤ count + 1 := Nat.succ_le_succ ih

theorem distance_reached (s t : List α) : Edits (distance s t) s t := by
  induction s, t using cost.induct with
  | case1 t =>
      rw [distance_nil_left]
      exact edits_insert_all t
  | case2 a s =>
      rw [distance_nil_right]
      exact edits_delete_all (a :: s)
  | case3 s a t ih =>
      rw [distance, cost_match]
      exact edits_cons a _ s t ih
  | case4 a s b t differ ihInsert ihDelete ihSubstitute =>
      have inserted : Edits (distance (a :: s) t + 1) (a :: s) (b :: t) :=
        .more _ _ (b :: a :: s) _ (.insert [] (a :: s) b) (edits_cons b _ _ _ ihInsert)
      have deleted : Edits (distance s (b :: t) + 1) (a :: s) (b :: t) := .more _ _ s _ (.delete [] s a) ihDelete
      have substituted : Edits (distance s t + 1) (a :: s) (b :: t) :=
        .more _ _ (b :: s) _ (.substitute [] s a b) (edits_cons b _ _ _ ihSubstitute)
      rw [distance, cost_differ id a b s t differ]
      exact min_rec' (Edits · (a :: s) (b :: t)) inserted (min_rec' (Edits · (a :: s) (b :: t)) deleted substituted)

theorem distance_least (s t : List α) : IsLeast {count | Edits count s t} (distance s t) :=
  ⟨distance_reached s t, fun count edits => distance_le count s t edits⟩

theorem distance_reverse (s t : List α) : distance s.reverse t.reverse = distance s t := by
  apply Nat.le_antisymm
  · exact distance_le _ _ _ (edits_reverse _ _ _ (distance_reached s t))
  · have back := edits_reverse _ _ _ (distance_reached s.reverse t.reverse)
    rw [List.reverse_reverse, List.reverse_reverse] at back
    exact distance_le _ _ _ back

def freeCost (s t : List α) : Nat := cost (fun _ => 0) s t

theorem free_length (s t : List α) : freeCost s t ≤ t.length := by
  induction s, t using cost.induct with
  | case1 t =>
      rw [freeCost, cost]
      exact Nat.zero_le _
  | case2 a s =>
      rw [freeCost, cost]
      exact Nat.zero_le _
  | case3 s a t ih =>
      rw [freeCost, cost_match]
      exact ih.trans (Nat.le_succ _)
  | case4 a s b t differ ihInsert ihDelete ihSubstitute =>
      rw [freeCost, cost_differ _ a b s t differ]
      exact (Nat.min_le_left _ _).trans (Nat.succ_le_succ ihInsert)

theorem free_take (s t : List α) (count : Nat) : freeCost s t ≤ distance (s.take count) t := by
  induction s, t using cost.induct generalizing count with
  | case1 t =>
      rw [freeCost, cost]
      exact Nat.zero_le _
  | case2 a s =>
      rw [freeCost, cost]
      exact Nat.zero_le _
  | case3 s a t ih =>
      cases count with
      | zero =>
          rw [List.take_zero, distance_nil_left]
          exact free_length _ _
      | succ count =>
          rw [List.take_succ_cons, freeCost, distance, cost_match, cost_match]
          exact ih count
  | case4 a s b t differ ihInsert ihDelete ihSubstitute =>
      cases count with
      | zero =>
          rw [List.take_zero, distance_nil_left]
          exact free_length _ _
      | succ count =>
          have inserted := ihInsert (count + 1)
          rw [List.take_succ_cons] at inserted ⊢
          rw [freeCost, distance, cost_differ _ a b s t differ, cost_differ _ a b (s.take count) t differ]
          exact min_le_min (Nat.succ_le_succ inserted)
            (min_le_min (Nat.succ_le_succ (ihDelete count)) (Nat.succ_le_succ (ihSubstitute count)))

theorem free_symm (s t : List α) : freeCost s t = freeCost t s := cost_symm _ s t

theorem free_attained (s t : List α) :
    ∃ count, distance (s.take count) t ≤ freeCost s t ∨ distance s (t.take count) ≤ freeCost s t := by
  induction s, t using cost.induct with
  | case1 t => exact ⟨0, .inr (by simp [distance_nil_left])⟩
  | case2 a s => exact ⟨0, .inl (by simp [distance_nil_left])⟩
  | case3 s a t ih =>
      obtain ⟨count, attained⟩ := ih
      refine ⟨count + 1, ?_⟩
      simpa only [List.take_succ_cons, freeCost, distance, cost_match] using attained
  | case4 a s b t differ ihInsert ihDelete ihSubstitute =>
      have value : freeCost (a :: s) (b :: t) = min (freeCost (a :: s) t + 1) (min (freeCost s (b :: t) + 1) (freeCost s t + 1)) :=
        cost_differ _ a b s t differ
      rw [value]
      have least : min (freeCost (a :: s) t + 1) (min (freeCost s (b :: t) + 1) (freeCost s t + 1)) = freeCost (a :: s) t + 1 ∨
          min (freeCost (a :: s) t + 1) (min (freeCost s (b :: t) + 1) (freeCost s t + 1)) = freeCost s (b :: t) + 1 ∨
            min (freeCost (a :: s) t + 1) (min (freeCost s (b :: t) + 1) (freeCost s t + 1)) = freeCost s t + 1 := by
        omega
      rcases least with inserted | deleted | substituted
      · rw [inserted]
        obtain ⟨count, shorter | shorter⟩ := ihInsert
        · exact ⟨count, .inl ((distance_extend b _ t).trans (Nat.succ_le_succ shorter))⟩
        · exact ⟨count + 1, .inr ((distance_extend b (a :: s) (t.take count)).trans (Nat.succ_le_succ shorter))⟩
      · rw [deleted]
        obtain ⟨count, shorter | shorter⟩ := ihDelete
        · exact ⟨count + 1, .inl ((distance_delete a (s.take count) (b :: t)).trans (Nat.succ_le_succ shorter))⟩
        · exact ⟨count, .inr ((distance_delete a s _).trans (Nat.succ_le_succ shorter))⟩
      · rw [substituted]
        obtain ⟨count, shorter | shorter⟩ := ihSubstitute
        · exact ⟨count + 1, .inl ((distance_both a b (s.take count) t).trans (Nat.succ_le_succ shorter))⟩
        · exact ⟨count + 1, .inr ((distance_both a b s (t.take count)).trans (Nat.succ_le_succ shorter))⟩

theorem free_eq_iff (s t : List α) :
    freeCost s t = distance s t ↔
      ∀ count, distance s t ≤ distance (s.take count) t ∧ distance s t ≤ distance s (t.take count) := by
  constructor
  · intro same count
    rw [← same]
    refine ⟨free_take s t count, ?_⟩
    rw [free_symm, distance_symm]
    exact free_take t s count
  · intro least
    apply Nat.le_antisymm
    · have whole := free_take s t s.length
      rwa [List.take_length] at whole
    · obtain ⟨count, shorter⟩ := free_attained s t
      cases shorter with
      | inl first => exact (least count).1.trans first
      | inr second => exact (least count).2.trans second

theorem free_reverse_iff (s t : List α) :
    freeCost s.reverse t.reverse = distance s t ↔
      ∀ count, distance s t ≤ distance (s.drop count) t ∧ distance s t ≤ distance s (t.drop count) := by
  have reversed : freeCost s.reverse t.reverse = distance s t ↔
      ∀ count, distance s t ≤ distance (s.drop (s.length - count)) t ∧ distance s t ≤ distance s (t.drop (t.length - count)) := by
    rw [← distance_reverse s t, free_eq_iff]
    simp only [List.take_reverse, distance_reverse]
  have dropped (l : List α) (count : Nat) : l.drop count = l.drop (l.length - (l.length - count)) := by
    by_cases short : count ≤ l.length
    · rw [Nat.sub_sub_self short]
    · rw [List.drop_eq_nil_of_le (by omega), List.drop_eq_nil_of_le (by omega)]
  rw [reversed]
  constructor
  · intro least count
    rw [dropped s count, dropped t count]
    exact ⟨(least (s.length - count)).1, (least (t.length - count)).2⟩
  · intro least count
    exact ⟨(least (s.length - count)).1, (least (t.length - count)).2⟩

end Cost

end Libx.EditDistance

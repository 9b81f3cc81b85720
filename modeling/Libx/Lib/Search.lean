import Mathlib.Data.List.Basic
import Mathlib.Data.List.Infix
import Mathlib.Data.List.TakeWhile

set_option autoImplicit false

namespace Libx.Search

variable {α : Type} [DecidableEq α]

def findFrom (what : List α) : List α → Nat → Option Nat
  | [], i => if what = [] then some i else none
  | c :: rest, i => if what <+: c :: rest then some i else findFrom what rest (i + 1)

def rfindFrom (what : List α) : List α → Nat → Option Nat
  | [], i => if what = [] then some i else none
  | c :: rest, i => (rfindFrom what rest (i + 1)).or (if what <+: c :: rest then some i else none)

def findNotFrom (set : List α) : List α → Nat → Option Nat
  | [], _ => none
  | c :: rest, i => if c ∈ set then findNotFrom set rest (i + 1) else some i

def findOfFrom (set : List α) : List α → Nat → Option Nat
  | [], _ => none
  | c :: rest, i => if c ∈ set then some i else findOfFrom set rest (i + 1)

def Absent (what : List α) : List α → List α → Prop
  | [], _ => True
  | c :: front, back => ¬ what <+: c :: (front ++ back) ∧ Absent what front back

theorem find_absent (what front back : List α) (i : Nat) (absent : Absent what front back) :
    findFrom what (front ++ back) i = findFrom what back (i + front.length) := by
  induction front generalizing i with
  | nil => rfl
  | cons c front ih =>
      rw [List.cons_append, findFrom, if_neg absent.1, ih (i + 1) absent.2, List.length_cons]
      congr 1
      omega

theorem find_here (what text : List α) (i : Nat) (here : what <+: text) : findFrom what text i = some i := by
  cases text with
  | nil => rw [findFrom, if_pos (List.prefix_nil.mp here)]
  | cons c rest => rw [findFrom, if_pos here]

theorem find_shift (what text : List α) (i k : Nat) : findFrom what text (i + k) = (findFrom what text i).map (· + k) := by
  induction text generalizing i with
  | nil =>
      by_cases empty : what = []
      · simp [findFrom, empty]
      · simp [findFrom, empty]
  | cons c rest ih =>
      by_cases here : what <+: c :: rest
      · simp [findFrom, here]
      · rw [findFrom, findFrom, if_neg here, if_neg here, Nat.add_right_comm, ih (i + 1)]

theorem find_some (what text : List α) (i place : Nat) (found : findFrom what text i = some place) :
    ∃ front rest, text = front ++ (what ++ rest) ∧ place = i + front.length := by
  induction text generalizing i with
  | nil =>
      by_cases empty : what = []
      · rw [findFrom, if_pos empty] at found
        exact ⟨[], [], by simp [empty], (Option.some.inj found).symm⟩
      · simp [findFrom, empty] at found
  | cons c text ih =>
      by_cases here : what <+: c :: text
      · rw [findFrom, if_pos here] at found
        obtain ⟨rest, same⟩ := here
        exact ⟨[], rest, same.symm, (Option.some.inj found).symm⟩
      · rw [findFrom, if_neg here] at found
        obtain ⟨front, rest, split, position⟩ := ih (i + 1) found
        refine ⟨c :: front, rest, by rw [split, List.cons_append], ?_⟩
        rw [position, List.length_cons]
        omega

theorem find_not_some (set text : List α) (i place : Nat) (found : findNotFrom set text i = some place) :
    ∃ front c rest, text = front ++ c :: rest ∧ place = i + front.length ∧ (∀ d ∈ front, d ∈ set) ∧ c ∉ set := by
  induction text generalizing i with
  | nil => simp [findNotFrom] at found
  | cons c text ih =>
      by_cases inside : c ∈ set
      · rw [findNotFrom, if_pos inside] at found
        obtain ⟨front, d, rest, split, position, within, outside⟩ := ih (i + 1) found
        refine ⟨c :: front, d, rest, by rw [split, List.cons_append], ?_, ?_, outside⟩
        · rw [position, List.length_cons]
          omega
        · intro e member
          cases List.mem_cons.mp member with
          | inl same => exact same ▸ inside
          | inr later => exact within e later
      · rw [findNotFrom, if_neg inside] at found
        exact ⟨[], c, text, rfl, (Option.some.inj found).symm, by simp, inside⟩

theorem find_not_past (set front back : List α) (i : Nat) (inside : ∀ c ∈ front, c ∈ set) :
    findNotFrom set (front ++ back) i = findNotFrom set back (i + front.length) := by
  induction front generalizing i with
  | nil => rfl
  | cons c front ih =>
      rw [List.cons_append, findNotFrom, if_pos (inside c (by simp)), ih (i + 1) fun d member => inside d (by simp [member]),
        List.length_cons]
      congr 1
      omega

theorem find_not_here (set rest : List α) (c : α) (i : Nat) (outside : c ∉ set) :
    findNotFrom set (c :: rest) i = some i := by
  rw [findNotFrom, if_neg outside]

theorem rfind_absent (what text : List α) (i : Nat) (absent : ¬ what <:+: text) : rfindFrom what text i = none := by
  induction text generalizing i with
  | nil => rw [rfindFrom, if_neg fun empty => absent (by simp [empty])]
  | cons c rest ih =>
      rw [rfindFrom, ih (i + 1) fun inside => absent (inside.trans (List.suffix_cons c rest).isInfix),
        if_neg fun here => absent here.isInfix]
      rfl

theorem rfind_last (what front rest : List α) (c : α) (i : Nat) (here : what <+: c :: rest) (last : ¬ what <:+: rest) :
    rfindFrom what (front ++ c :: rest) i = some (i + front.length) := by
  induction front generalizing i with
  | nil => simp [rfindFrom, rfind_absent what rest (i + 1) last, here]
  | cons d front ih =>
      rw [List.cons_append, rfindFrom, ih (i + 1), List.length_cons]
      simp only [Option.some_or, Option.some.injEq]
      omega

omit [DecidableEq α] in
theorem absent_append (what front middle back : List α) (first : Absent what front (middle ++ back))
    (second : Absent what middle back) : Absent what (front ++ middle) back := by
  induction front with
  | nil => exact second
  | cons c front ih => exact ⟨by simpa using first.1, ih first.2⟩

omit [DecidableEq α] in
theorem absent_head (a : α) (what front back : List α) (clean : ∀ c ∈ front, c ≠ a) : Absent (a :: what) front back := by
  induction front with
  | nil => trivial
  | cons c front ih =>
      refine ⟨fun here => clean c (by simp) ?_, ih fun d member => clean d (by simp [member])⟩
      exact (List.cons_prefix_cons.mp here).1.symm

-- A pattern that is not within the text could only straddle its end, so it
-- would hold the element behind it at an index of its own after the first.
omit [DecidableEq α] in
theorem absent_text (what front back : List α) (c : α) (outside : ¬ what <:+: front) (apart : c ∉ what.tail) :
    Absent what front (c :: back) := by
  induction front with
  | nil => trivial
  | cons d front ih =>
      refine ⟨fun here => ?_, ih fun inside => outside (inside.trans (List.suffix_cons d front).isInfix)⟩
      rcases List.prefix_or_prefix_of_prefix here (show d :: front <+: d :: (front ++ c :: back) from ⟨c :: back, by simp⟩) with
        short | long
      · exact outside short.isInfix
      · obtain ⟨more, rfl⟩ := long
        cases more with
        | nil => exact outside (by simp)
        | cons e more =>
            obtain ⟨rest, same⟩ := here
            have behind : e = c := by
              simp only [List.cons_append, List.append_assoc, List.cons.injEq, true_and] at same
              exact (List.cons_eq_cons.mp (List.append_cancel_left same)).1
            exact apart (by simp [behind])

omit [DecidableEq α] in
theorem infix_past (a : α) (what front back : List α) (clean : ∀ c ∈ front, c ≠ a) (inside : a :: what <:+: front ++ back) :
    a :: what <:+: back := by
  induction front with
  | nil => exact inside
  | cons c front ih =>
      rcases List.infix_cons_iff.mp inside with here | later
      · exact absurd (List.cons_prefix_cons.mp here).1.symm (clean c (by simp))
      · exact ih (fun d member => clean d (by simp [member])) later

theorem find_none_iff (what text : List α) (i : Nat) : findFrom what text i = none ↔ ¬ what <:+: text := by
  induction text generalizing i with
  | nil =>
      by_cases empty : what = []
      · simp [findFrom, empty]
      · simp [findFrom, empty]
  | cons c rest ih =>
      by_cases here : what <+: c :: rest
      · simp [findFrom, here, here.isInfix]
      · rw [findFrom, if_neg here, ih (i + 1), List.infix_cons_iff]
        simp [here]

theorem find_front (what front back : List α) (i place : Nat) (found : findFrom what front i = some place) :
    findFrom what (front ++ back) i = some place := by
  induction front generalizing i with
  | nil =>
      by_cases empty : what = []
      · rw [findFrom, if_pos empty] at found
        rw [List.nil_append, find_here what back i (empty ▸ List.nil_prefix), found]
      · simp [findFrom, empty] at found
  | cons c front ih =>
      by_cases here : what <+: c :: front
      · rw [findFrom, if_pos here] at found
        rw [find_here what _ i (here.trans (List.prefix_append _ back)), found]
      · rw [findFrom, if_neg here] at found
        obtain ⟨before, after, split, -⟩ := find_some what front (i + 1) place found
        have fits : what.length ≤ (c :: front).length := by
          simp only [split, List.length_cons, List.length_append]
          omega
        have notLonger : ¬ what <+: c :: (front ++ back) := fun longer =>
          here (List.prefix_of_prefix_length_le longer (List.prefix_append (c :: front) back) fits)
        rw [List.cons_append, findFrom, if_neg notLonger, ih (i + 1) found]

omit [DecidableEq α] in
theorem marked_prefix (mark : α) (first second back : List α) (cleanFirst : mark ∉ first) (cleanSecond : mark ∉ second) :
    first ++ [mark] <+: second ++ mark :: back ↔ first = second := by
  induction first generalizing second with
  | nil =>
      cases second with
      | nil => simp
      | cons d second =>
          have other : mark ≠ d := fun same => cleanSecond (by simp [same])
          simp [List.cons_prefix_cons, other]
  | cons c first ih =>
      cases second with
      | nil =>
          have other : c ≠ mark := fun same => cleanFirst (by simp [same])
          simp [List.cons_prefix_cons, other]
      | cons d second =>
          rw [List.cons_append, List.cons_append, List.cons_prefix_cons, ih second (fun member => cleanFirst (by simp [member]))
            fun member => cleanSecond (by simp [member])]
          exact List.cons_eq_cons.symm

def StopsAt (mark : α) (rest : List α) : Prop := rest = [] ∨ ∃ back, rest = mark :: back

theorem until_mark (mark : α) (text : List α) :
    mark ∉ text.takeWhile (· ≠ mark) ∧ StopsAt mark (text.dropWhile (· ≠ mark)) := by
  refine ⟨fun member => by simpa using List.mem_takeWhile_imp member, ?_⟩
  cases left : text.dropWhile (· ≠ mark) with
  | nil => exact .inl rfl
  | cons c back =>
      have first := List.head?_dropWhile_not (fun c => decide (c ≠ mark)) text
      rw [left] at first
      exact .inr ⟨back, by simpa using first⟩

theorem split_at_mark (mark : α) (text : List α) : ∃ clean rest, text = clean ++ rest ∧ mark ∉ clean ∧ StopsAt mark rest :=
  ⟨_, _, List.takeWhile_append_dropWhile.symm, until_mark mark text⟩

theorem nothing_left_iff (mark : α) (text : List α) : text.dropWhile (· ≠ mark) = [] ↔ mark ∉ text := by
  rw [List.dropWhile_eq_nil_iff]
  constructor
  · intro passed member
    simpa using passed mark member
  · intro outside c member
    exact decide_eq_true fun same => outside (same ▸ member)

theorem find_mark (mark : α) (clean rest : List α) (i : Nat) (outside : mark ∉ clean) (stops : StopsAt mark rest) :
    findFrom [mark] (clean ++ rest) i = if rest = [] then none else some (i + clean.length) := by
  have absent := absent_head mark [] clean rest fun c member same => outside (same ▸ member)
  rw [find_absent [mark] clean rest i absent]
  rcases stops with rfl | ⟨back, rfl⟩
  · simp [findFrom]
  · rw [find_here [mark] (mark :: back) _ ⟨back, rfl⟩, if_neg (by simp)]

theorem find_of_past (set clean rest : List α) (i : Nat) (outside : ∀ c ∈ clean, c ∉ set) :
    findOfFrom set (clean ++ rest) i = findOfFrom set rest (i + clean.length) := by
  induction clean generalizing i with
  | nil => rfl
  | cons c clean ih =>
      rw [List.cons_append, findOfFrom, if_neg (outside c (by simp)), ih (i + 1) fun d member => outside d (by simp [member]),
        List.length_cons, Nat.add_right_comm, Nat.add_assoc]

theorem find_of_bounds (set text : List α) (i place : Nat) (found : findOfFrom set text i = some place) :
    i ≤ place ∧ place < i + text.length := by
  induction text generalizing i with
  | nil => simp [findOfFrom] at found
  | cons c rest ih =>
      rw [List.length_cons]
      by_cases inside : c ∈ set
      · rw [findOfFrom, if_pos inside] at found
        obtain rfl := Option.some.inj found
        exact ⟨Nat.le_refl _, Nat.lt_add_of_pos_right (Nat.succ_pos _)⟩
      · rw [findOfFrom, if_neg inside] at found
        obtain ⟨lower, upper⟩ := ih (i + 1) found
        exact ⟨Nat.le_of_succ_le lower, by omega⟩

end Libx.Search

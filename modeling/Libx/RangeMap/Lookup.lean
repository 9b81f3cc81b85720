import Libx.Lib.OrderedMap
import Mathlib.Data.List.Pairwise
import Mathlib.Order.CompletePartialOrder
import Mathlib.Order.Interval.Set.Disjoint

set_option autoImplicit false

namespace Libx.RangeMap

open OrderedMap

structure Range (T : Type) where
  min : T
  max : T

variable {T ν : Type} [LinearOrder T]

def Range.center (center : T) : Range T := ⟨center, center⟩

def leftOfRange (lhs rhs : Range T) : Prop := lhs.min < rhs.min ∧ lhs.max ≤ rhs.min

instance : DecidableRel (leftOfRange (T := T)) := fun lhs rhs => inferInstanceAs (Decidable (lhs.min < rhs.min ∧ lhs.max ≤ rhs.min))

def Range.cell (range : Range T) : Set T := if range.min = range.max then {range.min} else Set.Ico range.min range.max

structure Separate (pairs : List (Range T × ν)) : Prop where
  proper : ∀ pair ∈ pairs, pair.1.min ≤ pair.1.max
  disjoint : pairs.Pairwise fun first second => Disjoint first.1.cell second.1.cell

theorem mem_cell (range : Range T) (x : T) (proper : range.min ≤ range.max) :
    x ∈ range.cell ↔ x = range.min ∨ range.min < x ∧ x < range.max := by
  by_cases point : range.min = range.max
  · rw [Range.cell, if_pos point, Set.mem_singleton_iff, ← point]
    exact ⟨.inl, fun either => either.elim id fun inside => absurd inside.2 (not_lt_of_gt inside.1)⟩
  · have wide : range.min < range.max := lt_of_le_of_ne proper point
    rw [Range.cell, if_neg point, Set.mem_Ico]
    constructor
    · intro inside
      cases eq_or_lt_of_le inside.1 with
      | inl same => exact .inl same.symm
      | inr above => exact .inr ⟨above, inside.2⟩
    · intro either
      cases either with
      | inl same =>
        rw [same]
        exact ⟨le_refl _, wide⟩
      | inr inside => exact ⟨le_of_lt inside.1, inside.2⟩

theorem left_of_irrefl (range : Range T) : ¬ leftOfRange range range := fun left => lt_irrefl range.min left.1

theorem left_of_trans (first second third : Range T) (left : leftOfRange first second) (right : leftOfRange second third) :
    leftOfRange first third :=
  ⟨lt_trans left.1 right.1, le_trans left.2 (le_of_lt right.1)⟩

theorem min_mem_cell (range : Range T) (proper : range.min ≤ range.max) : range.min ∈ range.cell :=
  (mem_cell range range.min proper).mpr (.inl rfl)

theorem left_of_lower (lower upper : Range T) (lowerProper : lower.min ≤ lower.max) (upperProper : upper.min ≤ upper.max)
    (disjoint : Disjoint lower.cell upper.cell) (below : lower.min < upper.min) : leftOfRange lower upper := by
  refine ⟨below, le_of_not_gt fun overlap => ?_⟩
  have inside : upper.min ∈ lower.cell := (mem_cell lower upper.min lowerProper).mpr (.inr ⟨below, overlap⟩)
  exact Set.disjoint_left.mp disjoint inside (min_mem_cell upper upperProper)

theorem left_of_disjoint (lower upper : Range T) (lowerProper : lower.min ≤ lower.max) (upperProper : upper.min ≤ upper.max)
    (left : leftOfRange lower upper) : Disjoint lower.cell upper.cell := by
  apply Set.disjoint_left.mpr
  intro x inLower inUpper
  have atLeast : upper.min ≤ x := by
    cases (mem_cell upper x upperProper).mp inUpper with
    | inl same => exact le_of_eq same.symm
    | inr inside => exact le_of_lt inside.1
  cases (mem_cell lower x lowerProper).mp inLower with
  | inl same => exact absurd left.1 (not_lt_of_ge (same ▸ atLeast))
  | inr inside => exact absurd inside.2 (not_lt_of_ge (le_trans left.2 atLeast))

theorem disjoint_iff (first second : Range T) (firstProper : first.min ≤ first.max) (secondProper : second.min ≤ second.max) :
    Disjoint first.cell second.cell ↔ leftOfRange first second ∨ leftOfRange second first := by
  constructor
  · intro disjoint
    rcases lt_trichotomy first.min second.min with below | same | above
    · exact .inl (left_of_lower first second firstProper secondProper disjoint below)
    · have shared := min_mem_cell first firstProper
      exact absurd (same ▸ min_mem_cell second secondProper) (Set.disjoint_left.mp disjoint shared)
    · exact .inr (left_of_lower second first secondProper firstProper disjoint.symm above)
  · intro either
    cases either with
    | inl left => exact left_of_disjoint first second firstProper secondProper left
    | inr left => exact (left_of_disjoint second first secondProper firstProper left).symm

theorem equivalent_center (range : Range T) (x : T) (proper : range.min ≤ range.max) :
    Equivalent leftOfRange (.center x) range ↔ x ∈ range.cell := by
  rw [mem_cell range x proper]
  simp only [Equivalent, leftOfRange, Range.center, not_and, not_le]
  constructor
  · intro neither
    cases eq_or_lt_of_le (le_of_not_gt fun below => absurd (neither.2 below) (not_lt_of_gt below)) with
    | inl same => exact .inl same.symm
    | inr above => exact .inr ⟨above, neither.1 above⟩
  · intro either
    cases either with
    | inl same => exact same ▸ ⟨fun above => absurd above (lt_irrefl _), fun below => absurd below (lt_irrefl _)⟩
    | inr inside => exact ⟨fun _ => inside.2, fun below => absurd below (not_lt_of_gt inside.1)⟩

section Family

variable (pairs : List (Range T × ν)) (separate : Separate pairs)
include separate

theorem separate_apart : pairs.Pairwise fun first second => leftOfRange first.1 second.1 ∨ leftOfRange second.1 first.1 := by
  apply separate.disjoint.imp_of_mem
  intro first second firstMember secondMember disjoint
  exact (disjoint_iff first.1 second.1 (separate.proper first firstMember) (separate.proper second secondMember)).mp disjoint

theorem same_cell (x : T) (first second : Range T × ν) (firstMember : first ∈ pairs) (secondMember : second ∈ pairs)
    (firstInside : x ∈ first.1.cell) (secondInside : x ∈ second.1.cell) : first = second := by
  by_contra different
  have symmetric : Std.Symm fun first second : Range T × ν => Disjoint first.1.cell second.1.cell :=
    ⟨fun _ _ disjoint => disjoint.symm⟩
  have disjoint := separate.disjoint.forall firstMember secondMember different
  exact Set.disjoint_left.mp disjoint firstInside secondInside

theorem separate_strict_total : StrictTotalOn leftOfRange fun range => range ∈ pairs.map Prod.fst := by
  constructor
  · intro range _
    exact left_of_irrefl range
  · intro first second third _ _ _
    exact left_of_trans first second third
  · intro first second firstMember secondMember different
    obtain ⟨firstPair, firstInside, rfl⟩ := List.mem_map.mp firstMember
    obtain ⟨secondPair, secondInside, rfl⟩ := List.mem_map.mp secondMember
    have symmetric : Std.Symm fun first second : Range T × ν => leftOfRange first.1 second.1 ∨ leftOfRange second.1 first.1 :=
      ⟨fun _ _ either => either.symm⟩
    exact (separate_apart pairs separate).forall firstInside secondInside fun same => different (congrArg Prod.fst same)

theorem find_in_family (tree : SearchTree (Range T) ν) (sorted : Sorted leftOfRange tree.entries)
    (kept : tree.entries.Perm pairs) (x : T) :
    (∀ pair ∈ pairs, x ∈ pair.1.cell → tree.find leftOfRange (.center x) = some pair) ∧
      ((∀ pair ∈ pairs, x ∉ pair.1.cell) → tree.find leftOfRange (.center x) = none) := by
  have cut := sorted_cut leftOfRange left_of_trans (.center x) tree.entries sorted
  have hits (found : Range T × ν) (run : tree.find leftOfRange (.center x) = some found) : found ∈ pairs ∧ x ∈ found.1.cell := by
    obtain ⟨member, equivalent⟩ := find_some leftOfRange (.center x) tree found cut run
    have inside := kept.mem_iff.mp member
    exact ⟨inside, (equivalent_center found.1 x (separate.proper found inside)).mp equivalent⟩
  constructor
  · intro pair member inside
    have equivalent := (equivalent_center pair.1 x (separate.proper pair member)).mpr inside
    obtain ⟨found, run⟩ := find_exists leftOfRange (.center x) tree pair cut (kept.mem_iff.mpr member) equivalent
    obtain ⟨foundMember, foundInside⟩ := hits found run
    rw [run, same_cell pairs separate x found pair foundMember member foundInside inside]
  · intro outside
    cases run : tree.find leftOfRange (.center x) with
    | none => rfl
    | some found =>
        obtain ⟨member, inside⟩ := hits found run
        exact absurd inside (outside found member)

-- The tree is the one std::map has after the insertions, balanced in any way.
theorem range_map_exact (tree : SearchTree (Range T) ν) (built : tree.entries = assignAll leftOfRange pairs) :
    StrictTotalOn leftOfRange (fun range => range ∈ pairs.map Prod.fst) ∧ tree.entries.Perm pairs ∧
      ∀ x, (∀ pair ∈ pairs, x ∈ pair.1.cell → tree.find leftOfRange (.center x) = some pair) ∧
        ((∀ pair ∈ pairs, x ∉ pair.1.cell) → tree.find leftOfRange (.center x) = none) := by
  obtain ⟨sorted, kept⟩ := assign_all_sorted leftOfRange left_of_trans pairs (separate_apart pairs separate)
  rw [← built] at sorted kept
  exact ⟨separate_strict_total pairs separate, kept, find_in_family pairs separate tree sorted kept⟩

end Family

theorem range_map_exact_touching :
    StrictTotalOn leftOfRange (fun range : Range Nat => range ∈ [⟨3, 5⟩, ⟨1, 3⟩, ⟨5, 5⟩]) ∧
      (SearchTree.node (.node .leaf ⟨1, 3⟩ 'a' .leaf) (⟨3, 5⟩ : Range Nat) 'b' (.node .leaf ⟨5, 5⟩ 'c' .leaf)).find leftOfRange
        (.center 3) = some (⟨3, 5⟩, 'b') := by
  have separate : Separate [((⟨3, 5⟩ : Range Nat), 'b'), (⟨1, 3⟩, 'a'), (⟨5, 5⟩, 'c')] := by
    refine ⟨by simp, ?_⟩
    simp [disjoint_iff, leftOfRange]
  have exact_ := range_map_exact _ separate
    (SearchTree.node (.node .leaf ⟨1, 3⟩ 'a' .leaf) ⟨3, 5⟩ 'b' (.node .leaf ⟨5, 5⟩ 'c' .leaf)) rfl
  exact ⟨exact_.1, (exact_.2.2 3).1 (⟨3, 5⟩, 'b') (by simp) ((mem_cell _ 3 (by decide)).mpr (.inl rfl))⟩

end Libx.RangeMap

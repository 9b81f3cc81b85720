import Mathlib.Data.List.Induction
import Mathlib.Data.List.Perm.Basic

set_option autoImplicit false

-- Ordered maps over a comparator that need not be a weak order on all keys.
namespace Libx.OrderedMap

variable {κ ν : Type} (less : κ → κ → Prop) [DecidableRel less]

inductive SearchTree (κ ν : Type) where
  | leaf
  | node (left : SearchTree κ ν) (key : κ) (value : ν) (right : SearchTree κ ν)

def SearchTree.entries : SearchTree κ ν → List (κ × ν)
  | .leaf => []
  | .node left key value right => left.entries ++ (key, value) :: right.entries

-- lower_bound descends and keeps the last node it went left from; find then
-- asks whether the key is less than that of the node.
def SearchTree.lowerBound (query : κ) (best : Option (κ × ν)) : SearchTree κ ν → Option (κ × ν)
  | .leaf => best
  | .node left key value right =>
      if less key query then right.lowerBound query best else left.lowerBound query (some (key, value))

def SearchTree.find (query : κ) (tree : SearchTree κ ν) : Option (κ × ν) :=
  (tree.lowerBound less query none).filter fun entry => ¬ less query entry.1

-- m[ key ] = value, in the order of iteration: at the first entry that is not less.
def assign (key : κ) (value : ν) : List (κ × ν) → List (κ × ν)
  | [] => [(key, value)]
  | entry :: rest =>
      if less entry.1 key then entry :: assign key value rest
      else if less key entry.1 then (key, value) :: entry :: rest
      else (entry.1, value) :: rest

def assignAll (pairs : List (κ × ν)) : List (κ × ν) := pairs.foldl (fun entries pair => assign less pair.1 pair.2 entries) []

def Equivalent (query key : κ) : Prop := ¬ less key query ∧ ¬ less query key

def Cut (query : κ) (entries : List (κ × ν)) : Prop :=
  entries.Pairwise fun earlier later =>
    (less later.1 query → less earlier.1 query) ∧ (less query earlier.1 → less query later.1)

def Sorted (entries : List (κ × ν)) : Prop := entries.Pairwise fun earlier later => less earlier.1 later.1

structure StrictTotalOn (family : κ → Prop) : Prop where
  irrefl : ∀ key, family key → ¬ less key key
  trans : ∀ first second third, family first → family second → family third →
    less first second → less second third → less first third
  total : ∀ first second, family first → family second → first ≠ second → less first second ∨ less second first

theorem lower_bound_entries (query : κ) (best : Option (κ × ν)) (tree : SearchTree κ ν) (cut : Cut less query tree.entries) :
    tree.lowerBound less query best = (tree.entries.find? fun entry => ¬ less entry.1 query).or best := by
  induction tree generalizing best with
  | leaf => rfl
  | node left key value right leftIh rightIh =>
      obtain ⟨leftCut, restCut, across⟩ := List.pairwise_append.mp cut
      obtain ⟨_, rightCut⟩ := List.pairwise_cons.mp restCut
      rw [SearchTree.lowerBound, SearchTree.entries, List.find?_append]
      by_cases smaller : less key query
      · have allLess : (left.entries.find? fun entry => ¬ less entry.1 query) = none := by
          rw [List.find?_eq_none]
          intro entry member
          simpa using (across entry member (key, value) List.mem_cons_self).1 smaller
        rw [if_pos smaller, rightIh best rightCut, allLess, List.find?_cons_of_neg (by simpa using smaller)]
        rfl
      · rw [if_neg smaller, leftIh _ leftCut, List.find?_cons_of_pos (by simpa using smaller)]
        cases left.entries.find? fun entry => ¬ less entry.1 query <;> rfl

theorem find_some (query : κ) (tree : SearchTree κ ν) (entry : κ × ν) (cut : Cut less query tree.entries)
    (found : tree.find less query = some entry) : entry ∈ tree.entries ∧ Equivalent less query entry.1 := by
  rw [SearchTree.find, lower_bound_entries less query none tree cut, Option.or_none, Option.filter_eq_some_iff] at found
  have notLess := List.find?_some found.1
  exact ⟨List.mem_of_find?_eq_some found.1, by simpa using notLess, by simpa using found.2⟩

theorem find_exists (query : κ) (tree : SearchTree κ ν) (entry : κ × ν) (cut : Cut less query tree.entries)
    (member : entry ∈ tree.entries) (equivalent : Equivalent less query entry.1) :
    ∃ found, tree.find less query = some found := by
  rw [SearchTree.find, lower_bound_entries less query none tree cut, Option.or_none]
  cases first : tree.entries.find? fun entry => ¬ less entry.1 query with
  | none =>
      have allLess := List.find?_eq_none.mp first entry member
      exact absurd equivalent.1 (by simpa using allLess)
  | some bound =>
      refine ⟨bound, Option.filter_eq_some_iff.mpr ⟨rfl, ?_⟩⟩
      obtain ⟨_, before, after, split, lower⟩ := List.find?_eq_some_iff_append.mp first
      rw [split] at member cut
      simp only [decide_not, Bool.not_eq_true', decide_eq_false_iff_not]
      intro below
      rcases List.mem_append.mp member with early | rest
      · have isLess := lower entry early
        exact equivalent.1 (by simpa using isLess)
      · cases List.mem_cons.mp rest with
        | inl same => exact equivalent.2 (same ▸ below)
        | inr late =>
            have behind := (List.pairwise_cons.mp (List.pairwise_append.mp cut).2.1).1 entry late
            exact equivalent.2 (behind.2 below)

section Transitive

variable (trans : ∀ first second third, less first second → less second third → less first third)
include trans

omit [DecidableRel less] in
theorem sorted_cut (query : κ) (entries : List (κ × ν)) (sorted : Sorted less entries) : Cut less query entries := by
  apply List.Pairwise.imp _ sorted
  intro earlier later ordered
  exact ⟨trans earlier.1 later.1 query ordered, fun below => trans query earlier.1 later.1 below ordered⟩

theorem assign_sorted (key : κ) (value : ν) (entries : List (κ × ν)) (sorted : Sorted less entries)
    (apart : ∀ entry ∈ entries, less entry.1 key ∨ less key entry.1) :
    Sorted less (assign less key value entries) ∧ (assign less key value entries).Perm ((key, value) :: entries) := by
  induction entries with
  | nil => exact ⟨List.pairwise_singleton _ _, .refl _⟩
  | cons entry rest ih =>
      obtain ⟨first, others⟩ := List.pairwise_cons.mp sorted
      obtain ⟨restSorted, restPerm⟩ := ih others fun other member => apart other (List.mem_cons_of_mem _ member)
      by_cases smaller : less entry.1 key
      · rw [assign, if_pos smaller]
        refine ⟨List.pairwise_cons.mpr ⟨?_, restSorted⟩, (restPerm.cons entry).trans (.swap _ _ _)⟩
        intro other member
        cases List.mem_cons.mp (restPerm.mem_iff.mp member) with
        | inl new => exact new ▸ smaller
        | inr old => exact first other old
      · have below : less key entry.1 := (apart entry List.mem_cons_self).resolve_left smaller
        rw [assign, if_neg smaller, if_pos below]
        refine ⟨List.pairwise_cons.mpr ⟨?_, sorted⟩, .refl _⟩
        intro other member
        cases List.mem_cons.mp member with
        | inl same => exact same ▸ below
        | inr old => exact trans key entry.1 other.1 below (first other old)

theorem assign_all_sorted (pairs : List (κ × ν))
    (apart : pairs.Pairwise fun first second => less first.1 second.1 ∨ less second.1 first.1) :
    Sorted less (assignAll less pairs) ∧ (assignAll less pairs).Perm pairs := by
  induction pairs using List.reverseRecOn with
  | nil => exact ⟨List.Pairwise.nil, .refl _⟩
  | append_singleton pairs pair ih =>
      obtain ⟨before, _, across⟩ := List.pairwise_append.mp apart
      obtain ⟨sorted, perm⟩ := ih before
      have step : assignAll less (pairs ++ [pair]) = assign less pair.1 pair.2 (assignAll less pairs) := by
        rw [assignAll, List.foldl_concat]
        rfl
      have placed := assign_sorted less trans pair.1 pair.2 (assignAll less pairs) sorted
        fun entry member => across entry (perm.mem_iff.mp member) pair (List.mem_singleton.mpr rfl)
      rw [step]
      exact ⟨placed.1, placed.2.trans ((perm.cons pair).trans (List.perm_append_singleton pair pairs).symm)⟩

end Transitive

end Libx.OrderedMap

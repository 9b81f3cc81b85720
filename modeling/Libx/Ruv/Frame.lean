import Libx.Ruv.Level

set_option autoImplicit false

namespace Libx.Viewer

open Counted

-- The old nodes stand in the new list in their order, each with its tag, its
-- other columns and its own old children; every other node is blank outside
-- the column, and so is all that is below it, where nothing is old.
inductive Extends (idx : Column) : List Ruv → List Ruv → Prop where
  | nil : Extends idx [] []
  | keep (old new : Ruv) (olds news : List Ruv) (tag : new.tag = old.tag) (others : ∀ column ≠ idx, new.val column = old.val column)
      (inner : Extends idx old.children new.children) (rest : Extends idx olds news) : Extends idx (old :: olds) (new :: news)
  | fresh (new : Ruv) (olds news : List Ruv) (blank : ∀ column ≠ idx, new.val column = []) (inner : Extends idx [] new.children)
      (rest : Extends idx olds news) : Extends idx olds (new :: news)

section Columns

variable (idx : Column)

theorem extends_refl : ∀ children : List Ruv, Extends idx children children
  | [] => .nil
  | .node tag val inner :: rest =>
      .keep (.node tag val inner) (.node tag val inner) rest rest rfl (fun _ _ => rfl) (extends_refl inner) (extends_refl rest)

theorem extends_trans (first second third : List Ruv) (before : Extends idx first second) (after : Extends idx second third) :
    Extends idx first third := by
  induction after generalizing first with
  | nil => exact before
  | fresh new olds news blank inner rest _ ih => exact .fresh new first news blank inner (ih first before)
  | keep old new olds news tag others inner rest ihInner ih =>
      cases before with
      | keep oldest _ oldests _ oldTag oldOthers oldInner oldRest =>
          refine .keep oldest new oldests news (tag.trans oldTag) (fun column other => ?_) (ihInner oldest.children oldInner)
            (ih oldests oldRest)
          exact (others column other).trans (oldOthers column other)
      | fresh _ _ _ oldBlank oldInner oldRest =>
          refine .fresh new first news (fun column other => ?_) (ihInner [] oldInner) (ih first oldRest)
          exact (others column other).trans (oldBlank column other)

theorem new_at_blank (pair : TagVal) (column : Column) (other : column ≠ idx) : (Ruv.newAt idx pair).val column = [] := by
  simp [Ruv.newAt, Function.update_of_ne other]

theorem new_at_fresh (pair : TagVal) (olds news : List Ruv) (rest : Extends idx olds news) :
    Extends idx olds (Ruv.newAt idx pair :: news) :=
  .fresh (Ruv.newAt idx pair) olds news (new_at_blank idx pair) .nil rest

theorem kept_head (p : Ruv) (olds news : List Ruv) (rest : Extends idx olds news) : Extends idx (p :: olds) (p :: news) :=
  .keep p p olds news rfl (fun _ _ => rfl) (extends_refl idx p.children) rest

theorem kept_front (front olds news : List Ruv) (rest : Extends idx olds news) : Extends idx (front ++ olds) (front ++ news) := by
  induction front with
  | nil => exact rest
  | cons p front ih => exact kept_head idx p (front ++ olds) (front ++ news) ih

theorem insert_extends (pair : TagVal) (front back : List Ruv) :
    Extends idx (front ++ back) (front ++ Ruv.newAt idx pair :: back) :=
  kept_front idx front back (Ruv.newAt idx pair :: back) (new_at_fresh idx pair back back (extends_refl idx back))

theorem set_field_extends (pair : TagVal) (children : List Ruv) : Extends idx children (setField idx pair children) := by
  induction children with
  | nil => exact new_at_fresh idx pair [] [] .nil
  | cons p rest ih =>
      by_cases found : p.tag = pair.1
      · rw [setField, if_pos found]
        refine .keep p (p.setVal idx pair.2) rest rest (set_val_tag p idx pair.2) (fun column other => ?_) ?_ (extends_refl idx rest)
        · cases p
          exact Function.update_of_ne other _ _
        · cases p
          exact extends_refl idx _
      · rw [setField, if_neg found]
        exact kept_head idx p rest (setField idx pair rest) ih

theorem add_field_extends (pair : TagVal) (children : List Ruv) : Extends idx children (addField idx pair children) := by
  by_cases first : idx = 0
  · rw [addField, if_pos first, first, new_eq_new_at]
    simpa using insert_extends 0 pair children []
  · rw [addField, if_neg first]
    exact set_field_extends idx pair children

theorem seek_bound (tag : Text) (wanted : Nat) (children : List Ruv) (i ref count : Nat) :
    (seekEntry tag wanted children i ref count).2 ≤ ref + children.length := by
  induction children generalizing i ref count with
  | nil => exact Nat.le_refl ref
  | cons p rest ih =>
      have later := ih (i + 1) (ref + 1) (count + 1)
      have other := ih (i + 1) (ref + 1) count
      have back := ih (i + 1) (ref + 1 - 1) count
      rw [List.length_cons]
      by_cases own : p.tag = tag
      · by_cases last : count + 1 = wanted
        · rw [seekEntry, if_pos own, if_pos last]
          omega
        · rw [seekEntry, if_pos own, if_neg last]
          omega
      · by_cases counted : count ≠ 0
        · rw [seekEntry, if_neg own, if_pos counted]
          omega
        · rw [seekEntry, if_neg own, if_neg counted]
          omega

theorem place_extends (pair : TagVal) (wanted : Nat) (children : List Ruv) :
    Extends idx children (placeEntry idx pair wanted children).1 := by
  by_cases first : idx = 0
  · rw [placeEntry, if_pos first, first, new_eq_new_at]
    simpa using insert_extends 0 pair children []
  · rw [placeEntry, if_neg first]
    have bound := seek_bound pair.1 wanted children 0 0 0
    cases found : seekEntry pair.1 wanted children 0 0 0 with
    | mk position ref =>
        cases position with
        | some i => exact extends_refl idx children
        | none =>
            rw [found, Nat.zero_add] at bound
            have split : children.insertIdx ref (Ruv.newAt idx pair) = children.take ref ++ Ruv.newAt idx pair :: children.drop ref := by
              have middle := insert_middle (children.take ref) (children.drop ref) (Ruv.newAt idx pair)
              rwa [List.take_append_drop, List.length_take_of_le bound] at middle
            have inserted := insert_extends idx pair (children.take ref) (children.drop ref)
            rw [List.take_append_drop] at inserted
            show Extends idx children (children.insertIdx ref (Ruv.newAt idx pair))
            rw [split]
            exact inserted

theorem set_children_extends (i : Nat) (children inner : List Ruv) (deeper : Extends idx (childrenAt i children) inner) :
    Extends idx children (children.modify i (Ruv.setChildren inner)) := by
  by_cases inside : i < children.length
  · have split : children = children.take i ++ children[i] :: children.drop (i + 1) := by
      rw [← List.drop_eq_getElem_cons inside, List.take_append_drop]
    have length : (children.take i).length = i := List.length_take_of_le (Nat.le_of_lt inside)
    have own : childrenAt i children = children[i].children := by simp [childrenAt, inside]
    have changed := modify_middle (children.take i) (children.drop (i + 1)) children[i] (Ruv.setChildren inner)
    rw [length, ← split] at changed
    rw [changed]
    nth_rewrite 1 [split]
    rw [own] at deeper
    refine kept_front idx _ _ _ (.keep _ _ _ _ (set_children_tag _ inner) (fun column _ => ?_) ?_ (extends_refl idx _))
    · cases children[i]
      rfl
    · rw [set_children_children]
      exact deeper
  · rw [List.modify_eq_self (Nat.le_of_not_lt inside)]
    exact extends_refl idx children

mutual
theorem items_extend (items : PairItems) (level : Level) : Extends idx level.children ((levelBuilder idx).items items level).children := by
  cases items with
  | nil => exact extends_refl idx level.children
  | field tag val more =>
      exact extends_trans idx _ _ _ (add_field_extends idx (tag, val) level.children)
        (items_extend more ((levelBuilder idx).field level (tag, val)))
  | group tag val entries more =>
      exact extends_trans idx _ _ _ (entries_extend (tag, val) entries level)
        (items_extend more ((levelBuilder idx).entries (tag, val) entries level))
theorem entries_extend (counter : TagVal) (entries : PairEntries) (level : Level) :
    Extends idx level.children ((levelBuilder idx).entries counter entries level).children := by
  cases entries with
  | nil => exact extends_refl idx level.children
  | cons entry more =>
      have put := place_extends idx counter (level.counting counter.1 + 1) level.children
      have inside := items_extend entry ((levelBuilder idx).enter level counter)
      have left := set_children_extends idx (placed idx level counter).2 (placed idx level counter).1 _ inside
      have behind := entries_extend counter more
        ((levelBuilder idx).leave level counter ((levelBuilder idx).items entry ((levelBuilder idx).enter level counter)))
      exact extends_trans idx _ _ _ (extends_trans idx _ _ _ put left) behind
end

end Columns

theorem column_kept (root : List Ruv) (pairs : List TagVal) (groups : Groups Text) (idx : Column) (plain : LastPlain groups pairs) :
    ∃ both, rmakeRoot root pairs groups idx = .ok both ∧ Extends idx root both := by
  obtain ⟨items, rfl, parsed⟩ := exists_parsed groups pairs plain
  exact ⟨_, root_parsed root groups idx items parsed, items_extend idx items ⟨root, fun _ => 0⟩⟩

theorem column_kept_parties :
    let parties : Groups Text := fun tag => if tag = "453".toList then some {"448".toList} else none
    let entry : Ruv := (Ruv.new ("453".toList, "1".toList)).setChildren [Ruv.new ("448".toList, "A".toList)]
    let root := [entry, Ruv.new ("58".toList, "t".toList), entry]
    ∃ both, rmakeRoot root [("453".toList, "1".toList), ("448".toList, "B".toList), ("58".toList, "u".toList)] parties 1 = .ok both ∧
      Extends 1 root both := by
  intro parties entry root
  exact column_kept root [("453".toList, "1".toList), ("448".toList, "B".toList), ("58".toList, "u".toList)] parties 1
    (last_plain_at parties _ _ rfl (by decide))

end Libx.Viewer

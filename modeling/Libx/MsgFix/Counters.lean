import Libx.Lib.Sequences
import Libx.MsgFix.Laws

set_option autoImplicit false

namespace Libx.Trd

open Counted
open Sequences (sift sift_kept)
open scoped List

mutual
def MsgFix.preorder : MsgFix → List (Token Int32 Text)
  | .node _ inttag val children => (inttag, val) :: preorderOf children
def preorderOf : List MsgFix → List (Token Int32 Text)
  | [] => []
  | p :: rest => p.preorder ++ preorderOf rest
end

def skips (groups : Groups Int32) (token next : Token Int32 Text) : Bool :=
  match groups token.1 with
  | none => false
  | some members => next.1 ∉ members

def standing (counter : Token Int32 Text) : FixEntries → List (Token Int32 Text)
  | .nil => []
  | .cons _ _ => [counter]

mutual
def keptItems : FixItems → List (Token Int32 Text)
  | .nil => []
  | .field tag val more => (tag, val) :: keptItems more
  | .group tag val entries more => standing (tag, val) entries ++ keptEntries entries ++ keptItems more
def keptEntries : FixEntries → List (Token Int32 Text)
  | .nil => []
  | .cons entry more => keptItems entry ++ keptEntries more
end

theorem standing_counter (counter : Token Int32 Text) (entries : FixEntries) (pair : Token Int32 Text)
    (member : pair ∈ standing counter entries) : pair = counter := by
  cases entries with
  | nil => simp [standing] at member
  | cons entry more => simpa [standing] using member

theorem preorder_append (front back : List MsgFix) : preorderOf (front ++ back) = preorderOf front ++ preorderOf back := by
  induction front with
  | nil => simp [preorderOf]
  | cons p rest ih => simp [preorderOf, ih]

theorem skips_counter (groups : Groups Int32) (token next : Token Int32 Text) (members : Finset Int32)
    (kind : groups token.1 = some members) : skips groups token next = decide (next.1 ∉ members) := by
  rw [skips, kind]

theorem head_in_member (members : Finset Int32) (tokens : List (Token Int32 Text)) (next : Token Int32 Text)
    (first : HeadIn members tokens) (head : tokens.head? = some next) : next.1 ∈ members := by
  obtain ⟨own, tail, rfl, member⟩ := head_in_cons members tokens first
  obtain rfl : own = next := by simpa using head
  exact member

-- Whether a counter is kept is told by the token behind it alone, as the
-- reader's look-ahead does.
theorem sift_counter (groups : Groups Int32) (counter : Token Int32 Text) (members : Finset Int32) (entries : FixEntries)
    (rest : List (Token Int32 Text)) (kind : groups counter.1 = some members) (following : entries.render ++ rest ≠ [])
    (parsed : entries.Parsed groups members rest) :
    sift (skips groups) (counter :: (entries.render ++ rest)) =
      standing counter entries ++ sift (skips groups) (entries.render ++ rest) := by
  cases entries with
  | nil =>
      rw [entries_render_nil, List.nil_append] at following ⊢
      cases rest with
      | nil => exact absurd rfl following
      | cons next tail =>
          have foreign : next.1 ∉ members := parsed
          rw [sift, if_pos (by simp [skips_counter groups counter next members kind, foreign])]
          rfl
  | cons entry more =>
      apply sift_kept
      intro next head
      have inside := parsed.1
      rw [← entries_render_cons] at inside
      rw [skips_counter groups counter next members kind]
      simp [head_in_member members _ next inside head]

mutual
theorem sift_items (groups : Groups Int32) (allowed : Option (Finset Int32)) (items : FixItems) (rest : List (Token Int32 Text))
    (parsed : items.Parsed groups allowed rest) :
    sift (skips groups) (items.render ++ rest) = keptItems items ++ sift (skips groups) rest := by
  cases items with
  | nil => simp [keptItems]
  | field tag val more =>
      obtain ⟨_, plain, moreParsed⟩ := parsed
      rw [items_render_field, List.cons_append, sift_kept _ _ _ fun next _ => by simp [skips, plain],
        sift_items groups _ more rest moreParsed, keptItems, List.cons_append]
  | group tag val entries more =>
      obtain ⟨_, following, ⟨members, kind, entriesParsed⟩, moreParsed⟩ := parsed
      rw [List.append_assoc] at following
      rw [items_render_group, List.cons_append, List.append_assoc,
        sift_counter groups (tag, val) members entries _ kind following entriesParsed,
        sift_entries groups members entries _ entriesParsed, sift_items groups _ more rest moreParsed, keptItems]
      simp only [List.append_assoc]
theorem sift_entries (groups : Groups Int32) (members : Finset Int32) (entries : FixEntries) (rest : List (Token Int32 Text))
    (parsed : entries.Parsed groups members rest) :
    sift (skips groups) (entries.render ++ rest) = keptEntries entries ++ sift (skips groups) rest := by
  cases entries with
  | nil => simp [keptEntries]
  | cons entry more =>
      obtain ⟨_, entryParsed, moreParsed⟩ := parsed
      rw [entries_render_cons, List.append_assoc, sift_items groups _ entry _ entryParsed,
        sift_entries groups members more rest moreParsed, keptEntries, List.append_assoc]
end

-- The nodes stand in the order of the tokens; a group node that an entry after
-- the first one adds repeats the counter.
mutual
theorem kept_sublist (items : FixItems) : keptItems items <+ preorderOf (buildItems items) := by
  cases items with
  | nil => simp [keptItems]
  | field tag val more =>
      rw [keptItems, buildItems, preorderOf, MsgFix.preorder, preorderOf, List.cons_append, List.nil_append]
      exact (kept_sublist more).cons_cons (tag, val)
  | group tag val entries more =>
      rw [keptItems, buildItems, preorder_append]
      exact (kept_entries tag val entries).append (kept_sublist more)
theorem kept_entries (tag : Int32) (val : Text) (entries : FixEntries) :
    standing (tag, val) entries ++ keptEntries entries <+ preorderOf (buildEntries tag val entries) := by
  cases entries with
  | nil => simp [standing, keptEntries]
  | cons entry more =>
      rw [standing, keptEntries, buildEntries, preorderOf, MsgFix.preorder, List.singleton_append, List.cons_append]
      have behind := (List.sublist_append_right (standing (tag, val) more) (keptEntries more)).trans (kept_entries tag val more)
      exact ((kept_sublist entry).append behind).cons_cons (tag, val)
end

mutual
theorem preorder_kept (items : FixItems) : preorderOf (buildItems items) ⊆ keptItems items := by
  cases items with
  | nil => simp [buildItems, preorderOf]
  | field tag val more =>
      rw [keptItems, buildItems, preorderOf, MsgFix.preorder, preorderOf, List.cons_append, List.nil_append]
      exact List.cons_subset_cons (tag, val) (preorder_kept more)
  | group tag val entries more =>
      rw [keptItems, buildItems, preorder_append]
      refine List.append_subset.mpr ⟨?_, ?_⟩
      · exact List.Subset.trans (entries_kept tag val entries) (List.subset_append_left _ _)
      · exact List.Subset.trans (preorder_kept more) (List.subset_append_right _ _)
theorem entries_kept (tag : Int32) (val : Text) (entries : FixEntries) :
    preorderOf (buildEntries tag val entries) ⊆ standing (tag, val) entries ++ keptEntries entries := by
  cases entries with
  | nil => simp [buildEntries, preorderOf]
  | cons entry more =>
      rw [standing, keptEntries, buildEntries, preorderOf, MsgFix.preorder, List.singleton_append, List.cons_append]
      refine List.cons_subset.mpr ⟨List.mem_cons_self, List.append_subset.mpr ⟨?_, ?_⟩⟩
      · exact fun pair member => List.mem_cons_of_mem _ (List.mem_append_left _ (preorder_kept entry member))
      · intro pair member
        cases List.mem_append.mp (entries_kept tag val more member) with
        | inl repeated => exact List.mem_cons.mpr (.inl (standing_counter (tag, val) more pair repeated))
        | inr inside => exact List.mem_cons_of_mem _ (List.mem_append_right _ inside)
end

mutual
theorem build_preorder (groups : Groups Int32) (items : FixItems) (shaped : items.Shaped groups) :
    ((preorderOf (buildItems items)).filter fun pair => (groups pair.1).isNone) = items.fields := by
  cases items with
  | nil => simp [buildItems, preorderOf, Items.fields]
  | field tag val more =>
      obtain ⟨plain, moreShaped⟩ := shaped
      simp [buildItems, preorderOf, MsgFix.preorder, Items.fields, plain, build_preorder groups more moreShaped]
  | group tag val entries more =>
      obtain ⟨⟨members, kind, entriesShaped⟩, moreShaped⟩ := shaped
      rw [buildItems, preorder_append, List.filter_append, Items.fields, build_preorder groups more moreShaped,
        build_entries_preorder groups members tag val entries kind entriesShaped]
theorem build_entries_preorder (groups : Groups Int32) (members : Finset Int32) (tag : Int32) (val : Text) (entries : FixEntries)
    (kind : groups tag = some members) (shaped : entries.Shaped groups members) :
    ((preorderOf (buildEntries tag val entries)).filter fun pair => (groups pair.1).isNone) = entries.fields := by
  cases entries with
  | nil => simp [buildEntries, preorderOf, Entries.fields]
  | cons entry more =>
      obtain ⟨_, _, _, entryShaped, moreShaped⟩ := shaped
      simp [buildEntries, preorderOf, MsgFix.preorder, Entries.fields, kind, build_preorder groups entry entryShaped,
        build_entries_preorder groups members tag val more kind moreShaped]
end

theorem rmake_keeps_counters (groups : Groups Int32) (rfixtokens : List Text) (integers : IntegerTags rfixtokens)
    (last : LastNotCounter groups rfixtokens) :
    ∃ children, msgFixRmakeRoot rfixtokens groups = .ok (children, rfixtokens.length) ∧
      sift (skips groups) (pairsOf rfixtokens) <+ preorderOf children ∧
      ((preorderOf children).filter fun pair => (groups pair.1).isNone) =
        (pairsOf rfixtokens).filter (fun pair => (groups pair.1).isNone) ∧
      preorderOf children ⊆ sift (skips groups) (pairsOf rfixtokens) := by
  obtain ⟨items, render, parsed, made⟩ := root_items groups rfixtokens integers last
  have kept := sift_items groups none items [] parsed
  rw [List.append_nil, show sift (skips groups) [] = [] from rfl, List.append_nil, ← render] at kept
  refine ⟨buildItems items, made, ?_, ?_, ?_⟩
  · rw [kept]
    exact kept_sublist items
  · rw [build_preorder groups items (parsed_shaped groups none items [] parsed), render]
    exact items_fields_filter groups none items [] parsed
  · rw [kept]
    exact preorder_kept items

theorem rmake_keeps_counters_parties :
    let tokens := ["453=2".toList, "448=A".toList, "448=B".toList, "78=0".toList, "10=001".toList]
    let children : List MsgFix := [.node false 453 "2".toList [.node true 448 "A".toList []],
      .node false 453 "2".toList [.node true 448 "B".toList []], .node true 10 "001".toList []]
    let kept : List (Token Int32 Text) := [(453, "2".toList), (448, "A".toList), (448, "B".toList), (10, "001".toList)]
    msgFixRmakeRoot tokens getFix42RepeatingGroups = .ok (children, 5) ∧ kept <+ preorderOf children ∧
      ((preorderOf children).filter fun pair => (getFix42RepeatingGroups pair.1).isNone) =
        [(448, "A".toList), (448, "B".toList), (10, "001".toList)] ∧
      preorderOf children ⊆ kept := by
  intro tokens children kept
  have integers : IntegerTags tokens := integer_tags_checked tokens rfl
  have last : LastNotCounter getFix42RepeatingGroups tokens :=
    last_not_counter_at getFix42RepeatingGroups tokens "10=001".toList (10, "001".toList) rfl rfl rfl
  have made : msgFixRmakeRoot tokens getFix42RepeatingGroups = .ok (children, 5) := rfl
  obtain ⟨children', run, counters, fields, nodes⟩ := rmake_keeps_counters getFix42RepeatingGroups tokens integers last
  obtain rfl : children = children' := congrArg Prod.fst (Except.ok.inj (made.symm.trans run))
  have sifted : sift (skips getFix42RepeatingGroups) (pairsOf tokens) = kept := by decide
  rw [sifted] at counters nodes
  exact ⟨made, counters, fields, nodes⟩

theorem empty_counter_dropped :
    let tokens := ["453=0".toList, "58=x".toList]
    IntegerTags tokens ∧ LastNotCounter getFix42RepeatingGroups tokens ∧ getFix42RepeatingGroups 453 ≠ none ∧
      ((453 : Int32), "0".toList) ∈ pairsOf tokens ∧
      ∃ children, msgFixRmakeRoot tokens getFix42RepeatingGroups = .ok (children, tokens.length) ∧
        ((453 : Int32), "0".toList) ∉ preorderOf children := by
  intro tokens
  have integers : IntegerTags tokens := integer_tags_checked tokens rfl
  have last : LastNotCounter getFix42RepeatingGroups tokens :=
    last_not_counter_at getFix42RepeatingGroups tokens "58=x".toList (58, "x".toList) rfl rfl rfl
  refine ⟨integers, last, by simp [getFix42RepeatingGroups], by decide, [.node true 58 "x".toList []], rfl, ?_⟩
  simp [preorderOf, MsgFix.preorder]

end Libx.Trd

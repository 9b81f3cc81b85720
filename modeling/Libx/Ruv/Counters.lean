import Libx.Ruv.Compare

set_option autoImplicit false

namespace Libx.Viewer

open Counted

def counterValue (counter : Text) (k : Nat) : PairItems → Option Text
  | .nil => none
  | .field _ _ more => counterValue counter k more
  | .group own val entries more =>
      if own = counter then if k < entries.count then some val else none else counterValue counter k more

def entryValue : List (Text × Nat) → Text → Nat → PairItems → Option Text
  | [], counter, k, items => counterValue counter k items
  | (own, i) :: path, counter, k, items => entryValue path counter k (entryAt own i items)

def columnAt (column : Column) (k : Nat) (nodes : List Ruv) : Option Text := nodes[k]?.map fun p => p.val column

theorem set_children_val (p : Ruv) (children : List Ruv) : (p.setChildren children).val = p.val := by
  cases p
  rfl

theorem overlay_column (idx column : Column) (counter : TagVal) (k : Nat) (entries : PairEntries) (olds : List Ruv) :
    columnAt column k (overlay idx counter entries olds) =
      (columnAt column k olds).or (if k < entries.count then some ((Ruv.newAt idx counter).val column) else none) := by
  induction k generalizing entries olds with
  | zero =>
      cases entries with
      | nil => simp [overlay, Entries.count]
      | cons entry more =>
          cases olds with
          | nil => simp [overlay, columnAt, Entries.count, set_children_val]
          | cons p olds => simp [overlay, columnAt, set_children_val]
  | succ k ih =>
      cases entries with
      | nil => simp [overlay, Entries.count]
      | cons entry more =>
          cases olds with
          | nil => simpa [overlay, columnAt, Entries.count] using ih more []
          | cons p olds => simpa [overlay, columnAt, Entries.count] using ih more olds

-- No field has a counter's tag, so a pass changes the nodes of a counter with
-- its one group of the level.
theorem counter_column (idx column : Column) (groups : Groups Text) (counter : Text) (k : Nat) (items : PairItems)
    (olds : List Ruv) (level : LevelItems groups items) (kind : groups counter ≠ none) :
    columnAt column k (kidsAfter idx counter items olds) =
      (columnAt column k olds).or ((counterValue counter k items).map fun val => (Ruv.newAt idx (counter, val)).val column) := by
  obtain ⟨distinct, shaped⟩ := level
  match items with
  | .nil => simp [kidsAfter, counterValue]
  | .field own val more =>
      have different : own ≠ counter := fun same => kind (same ▸ shaped.1)
      rw [kidsAfter, if_neg different, counterValue]
      exact counter_column idx column groups counter k more olds ⟨(field_distinct own val more distinct).2, shaped.2⟩ kind
  | .group own val entries more =>
      obtain ⟨absent, distinct⟩ := group_distinct own val entries more distinct
      by_cases same : own = counter
      · rw [kidsAfter, if_pos same, kids_after_absent idx counter more _ (same ▸ absent), overlay_column, counterValue, if_pos same,
          same]
        by_cases inside : k < entries.count
        · rw [if_pos inside, if_pos inside, Option.map_some]
        · rw [if_neg inside, if_neg inside, Option.map_none]
      · rw [kidsAfter, if_neg same, counterValue, if_neg same]
        exact counter_column idx column groups counter k more olds ⟨distinct, shaped.2⟩ kind

theorem counter_is_key (groups : Groups Text) (counter : Text) (k : Nat) (items : PairItems) (shaped : items.Shaped groups)
    (plain : groups counter = none) : counterValue counter k items = none := by
  match items with
  | .nil => rfl
  | .field own val more => exact counter_is_key groups counter k more shaped.2 plain
  | .group own val entries more =>
      obtain ⟨⟨members, kind, _⟩, moreShaped⟩ := shaped
      have different : own ≠ counter := fun same => by simp [same, plain] at kind
      rw [counterValue, if_neg different, counter_is_key groups counter k more moreShaped plain]

theorem entry_is_key (groups : Groups Text) (path : List (Text × Nat)) (counter : Text) (k : Nat) (items : PairItems)
    (level : LevelItems groups items) (plain : groups counter = none) : entryValue path counter k items = none := by
  induction path generalizing items with
  | nil => exact counter_is_key groups counter k items level.shaped plain
  | cons step path ih => exact ih (entryAt step.1 step.2 items) (entry_at_level groups step.1 step.2 items level.shaped)

theorem entry_column (groups : Groups Text) (path : List (Text × Nat)) (counter : Text) (k : Nat) (left right : PairItems)
    (leftLevel : LevelItems groups left) (rightLevel : LevelItems groups right) (kind : groups counter ≠ none) :
    columnAt 1 k (leavesAt path counter (readInto 1 right (readInto 0 left []))) =
      ((entryValue path counter k left).map fun _ => []).or (entryValue path counter k right) := by
  have later : (1 : Column) ≠ 0 := by decide
  have blocked := first_blocked 0 left leftLevel.distinct
  induction path generalizing left right with
  | nil =>
      rw [leavesAt, second_kids 1 right _ counter rightLevel.distinct blocked later, first_kids 0 left counter leftLevel.distinct,
        counter_column 1 1 groups counter k right _ rightLevel kind, counter_column 0 1 groups counter k left _ leftLevel kind]
      simp [columnAt, entryValue, Ruv.newAt]
  | cons step path ih =>
      obtain ⟨own, i⟩ := step
      have leftEntry := entry_at_level groups own i left leftLevel.shaped
      have rightEntry := entry_at_level groups own i right rightLevel.shaped
      rw [leavesAt, second_kids 1 right _ own rightLevel.distinct blocked later, first_kids 0 left own leftLevel.distinct,
        children_at_after 1 own i right _ rightLevel.distinct, children_at_after 0 own i left _ leftLevel.distinct, children_at_nil]
      exact ih _ _ leftEntry rightEntry (first_blocked 0 _ leftEntry.distinct)

theorem counters_recorded_iff (rRPGs : Groups Text) (v1 v2 : List TagVal) (plain1 : LastPlain rRPGs v1)
    (plain2 : LastPlain rRPGs v2) (once1 : (topTags v1 rRPGs (enoughFuel v1) 0).Nodup)
    (once2 : (topTags v2 rRPGs (enoughFuel v2) 0).Nodup) :
    ∃ left right : PairItems, v1 = left.render ∧ left.Parsed rRPGs none [] ∧ v2 = right.render ∧ right.Parsed rRPGs none [] ∧
      ∃ one both, rmakeRoot [] v1 rRPGs 0 = .ok one ∧ rmakeRoot one v2 rRPGs 1 = .ok both ∧
        ((∀ path counter k val, entryValue path counter k right = some val →
            columnAt 1 k (leavesAt path counter both) = some val) ↔
          ∀ path counter k val, entryValue path counter k right = some val → entryValue path counter k left ≠ none → val = []) := by
  obtain ⟨left, rfl, leftParsed⟩ := exists_parsed rRPGs v1 plain1
  obtain ⟨right, rfl, rightParsed⟩ := exists_parsed rRPGs v2 plain2
  rw [top_tags_items rRPGs left leftParsed] at once1
  rw [top_tags_items rRPGs right rightParsed] at once2
  have leftLevel : LevelItems rRPGs left := ⟨once1, parsed_shaped rRPGs none left [] leftParsed⟩
  have rightLevel : LevelItems rRPGs right := ⟨once2, parsed_shaped rRPGs none right [] rightParsed⟩
  refine ⟨left, right, rfl, leftParsed, rfl, rightParsed, _, _, root_parsed [] rRPGs 0 left leftParsed,
    root_parsed _ rRPGs 1 right rightParsed, ?_⟩
  have column (path : List (Text × Nat)) (counter : Text) (k : Nat) (val : Text)
      (present : entryValue path counter k right = some val) :
      columnAt 1 k (leavesAt path counter (readInto 1 right (readInto 0 left []))) =
        ((entryValue path counter k left).map fun _ => []).or (some val) := by
    have kind : rRPGs counter ≠ none := fun plain => by
      simp [entry_is_key rRPGs path counter k right rightLevel plain] at present
    rw [entry_column rRPGs path counter k left right leftLevel rightLevel kind, present]
  constructor
  · intro recorded path counter k val present matched
    obtain ⟨other, first⟩ := Option.ne_none_iff_exists'.mp matched
    have same := recorded path counter k val present
    rw [column path counter k val present, first] at same
    exact (Option.some.inj same).symm
  · intro empty path counter k val present
    rw [column path counter k val present]
    cases first : entryValue path counter k left with
    | none => rfl
    | some other =>
        rw [empty path counter k val present (by simp [first])]
        rfl

theorem entry_value_nil (path : List (Text × Nat)) (counter : Text) (k : Nat) : entryValue path counter k .nil = none := by
  induction path with
  | nil => rfl
  | cons step path ih => exact ih

theorem counters_recorded_new :
    let parties : Groups Text := fun tag => if tag = "453".toList then some {"448".toList} else none
    let v1 := [("58".toList, "t".toList)]
    let v2 := [("453".toList, "2".toList), ("448".toList, "A".toList), ("448".toList, "B".toList)]
    let entry (field : Text) := (Ruv.newAt 1 ("453".toList, "2".toList)).setChildren [Ruv.newAt 1 ("448".toList, field)]
    let one := [Ruv.new ("58".toList, "t".toList)]
    let both := [Ruv.new ("58".toList, "t".toList), entry "A".toList, entry "B".toList]
    rmakeRoot [] v1 parties 0 = .ok one ∧ rmakeRoot one v2 parties 1 = .ok both ∧
      columnAt 1 0 (leavesAt [] "453".toList both) = some "2".toList ∧ columnAt 1 1 (leavesAt [] "453".toList both) = some "2".toList := by
  intro parties v1 v2 entry one both
  have plain1 : LastPlain parties v1 := last_plain_at parties v1 _ rfl (by decide)
  have plain2 : LastPlain parties v2 := last_plain_at parties v2 _ rfl (by decide)
  obtain ⟨left, right, leftRender, leftParsed, rightRender, rightParsed, one', both', first, second, recorded⟩ :=
    counters_recorded_iff parties v1 v2 plain1 plain2 (by decide) (by decide)
  have madeOne : rmakeRoot [] v1 parties 0 = .ok one := rfl
  have madeBoth : rmakeRoot one v2 parties 1 = .ok both := rfl
  obtain rfl := Except.ok.inj (madeOne.symm.trans first)
  obtain rfl := Except.ok.inj (madeBoth.symm.trans second)
  let leftItems : PairItems := .field "58".toList "t".toList .nil
  let rightItems : PairItems := .group "453".toList "2".toList
    (.cons (.field "448".toList "A".toList .nil) (.cons (.field "448".toList "B".toList .nil) .nil)) .nil
  have leftRead : leftItems.Parsed parties none [] := by simp [leftItems, parties, Items.Parsed, Stops]
  have rightRead : rightItems.Parsed parties none [] := by simp [rightItems, parties, Items.Parsed, Entries.Parsed, HeadIn, Stops]
  obtain ⟨rfl, _⟩ := parsed_unique parties none leftItems left [] [] (by simp [leftItems, ← leftRender, v1]) leftRead leftParsed
  obtain ⟨rfl, _⟩ := parsed_unique parties none rightItems right [] [] (by simp [rightItems, ← rightRender, v2]) rightRead rightParsed
  have values := recorded.mpr fun path counter k val _ matched => by
    cases path with
    | nil => exact absurd rfl matched
    | cons step path => exact absurd (entry_value_nil path counter k) matched
  exact ⟨madeOne, madeBoth, values [] "453".toList 0 "2".toList rfl, values [] "453".toList 1 "2".toList rfl⟩

theorem matched_counter_lost :
    let parties : Groups Text := fun tag => if tag = "453".toList then some {"448".toList} else none
    let items : PairItems := .group "453".toList "1".toList (.cons (.field "448".toList "A".toList .nil) .nil) .nil
    items.Parsed parties none [] ∧ entryValue [] "453".toList 0 items = some "1".toList ∧
      ∃ one both, rmakeRoot [] items.render parties 0 = .ok one ∧ rmakeRoot one items.render parties 1 = .ok both ∧
        columnAt 1 0 (leavesAt [] "453".toList both) = some [] := by
  intro parties items
  have parsed : items.Parsed parties none [] := by
    simp [items, parties, Items.Parsed, Entries.Parsed, HeadIn, Stops]
  have level : LevelItems parties items := ⟨by decide, parsed_shaped parties none items [] parsed⟩
  refine ⟨parsed, by decide, _, _, root_parsed [] parties 0 items parsed, root_parsed _ parties 1 items parsed, ?_⟩
  exact entry_column parties [] "453".toList 0 items items level level (by decide)

end Libx.Viewer

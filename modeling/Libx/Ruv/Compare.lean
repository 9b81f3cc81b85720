import Libx.Ruv.Level

set_option autoImplicit false

namespace Libx.Viewer

open Counted

-- A step (counter, k) goes to the k-th child that carries the counter's tag.
def leavesAt : List (Text × Nat) → Text → List Ruv → List Ruv
  | [], tag, children => kids tag children
  | (counter, k) :: path, tag, children => leavesAt path tag (childrenAt k (kids counter children))

structure Compared (one two both : List Ruv) : Prop where
  one_leaf : one.length ≤ 1
  two_leaf : two.length ≤ 1
  both_leaf : both.length ≤ 1
  present : both ≠ [] ↔ one ≠ [] ∨ two ≠ []
  values : ∀ leaf ∈ both, leaf.val 0 = valueOf one ∧ leaf.val 1 = valueOf two

def entryIn : Nat → PairEntries → PairItems
  | _, .nil => .nil
  | 0, .cons entry _ => entry
  | k + 1, .cons _ more => entryIn k more

def entryAt (counter : Text) (k : Nat) : PairItems → PairItems
  | .nil => .nil
  | .field _ _ more => entryAt counter k more
  | .group own _ entries more => if own = counter then entryIn k entries else entryAt counter k more

def fieldAt (tag : Text) : PairItems → Option Text
  | .nil => none
  | .field own val more => if own = tag then some val else fieldAt tag more
  | .group _ _ _ more => fieldAt tag more

theorem kids_after_absent (idx : Column) (tag : Text) (items : PairItems) (olds : List Ruv) (absent : tag ∉ items.tags) :
    kidsAfter idx tag items olds = olds := by
  match items with
  | .nil => rfl
  | .field own val more =>
      simp only [Items.tags, List.mem_cons, not_or] at absent
      rw [kidsAfter, if_neg (Ne.symm absent.1), kids_after_absent idx tag more olds absent.2]
  | .group own val entries more =>
      simp only [Items.tags, List.mem_cons, not_or] at absent
      rw [kidsAfter, if_neg (Ne.symm absent.1), kids_after_absent idx tag more olds absent.2]

@[simp] theorem read_into_nil (idx : Column) (children : List Ruv) : readInto idx .nil children = children := by
  rw [readInto, Builder.items]

@[simp] theorem set_val_children (p : Ruv) (idx : Column) (value : Text) : (p.setVal idx value).children = p.children := by
  cases p; rfl

theorem children_at_mark (idx : Column) (pair : TagVal) (k : Nat) (olds : List Ruv) :
    childrenAt k (markField idx pair olds) = childrenAt k olds := by
  cases olds with
  | nil => cases k <;> simp [markField, childrenAt]
  | cons p rest => cases k <;> simp [markField, childrenAt]

theorem children_at_overlay (idx : Column) (counter : TagVal) : ∀ (k : Nat) (entries : PairEntries) (olds : List Ruv),
    childrenAt k (overlay idx counter entries olds) = readInto idx (entryIn k entries) (childrenAt k olds)
  | k, .nil, olds => by cases k <;> simp [overlay, entryIn]
  | 0, .cons entry more, [] => by simp [overlay, entryIn, childrenAt]
  | 0, .cons entry more, p :: olds => by simp [overlay, entryIn, childrenAt]
  | k + 1, .cons entry more, [] => by
      have later := children_at_overlay idx counter k more []
      simpa [overlay, entryIn, childrenAt] using later
  | k + 1, .cons entry more, p :: olds => by
      have later := children_at_overlay idx counter k more olds
      simpa [overlay, entryIn, childrenAt] using later

theorem children_at_after (idx : Column) (counter : Text) (k : Nat) (items : PairItems) (olds : List Ruv)
    (distinct : items.tags.Nodup) :
    childrenAt k (kidsAfter idx counter items olds) = readInto idx (entryAt counter k items) (childrenAt k olds) := by
  match items with
  | .nil => simp [kidsAfter, entryAt]
  | .field own val more =>
      obtain ⟨absent, distinct⟩ := field_distinct own val more distinct
      have rest := children_at_after idx counter k more
      by_cases same : own = counter
      · rw [kidsAfter, if_pos same, rest _ distinct, entryAt, children_at_mark]
      · rw [kidsAfter, if_neg same, rest _ distinct, entryAt]
  | .group own val entries more =>
      obtain ⟨absent, distinct⟩ := group_distinct own val entries more distinct
      by_cases same : own = counter
      · rw [kidsAfter, if_pos same, entryAt, if_pos same, kids_after_absent idx counter more _ (same ▸ absent),
          children_at_overlay]
      · rw [kidsAfter, if_neg same, entryAt, if_neg same, children_at_after idx counter k more olds distinct]

theorem kids_after_plain (idx : Column) (groups : Groups Text) (tag : Text) (items : PairItems) (olds : List Ruv)
    (distinct : items.tags.Nodup) (shaped : items.Shaped groups) (plain : groups tag = none) :
    kidsAfter idx tag items olds = ((fieldAt tag items).map fun val => markField idx (tag, val) olds).getD olds := by
  match items with
  | .nil => rfl
  | .field own val more =>
      obtain ⟨absent, distinct⟩ := field_distinct own val more distinct
      by_cases same : own = tag
      · rw [kidsAfter, if_pos same, fieldAt, if_pos same, kids_after_absent idx tag more _ (same ▸ absent), same]
        rfl
      · rw [kidsAfter, if_neg same, fieldAt, if_neg same, kids_after_plain idx groups tag more olds distinct shaped.2 plain]
  | .group own val entries more =>
      obtain ⟨_, distinct⟩ := group_distinct own val entries more distinct
      obtain ⟨⟨members, counter, _⟩, moreShaped⟩ := shaped
      have different : own ≠ tag := fun same => by simp [same, plain] at counter
      rw [kidsAfter, if_neg different, fieldAt, kids_after_plain idx groups tag more olds distinct moreShaped plain]

structure LevelItems (groups : Groups Text) (items : PairItems) : Prop where
  distinct : items.tags.Nodup
  shaped : items.Shaped groups

theorem entry_in_level (groups : Groups Text) (members : Finset Text) : ∀ (k : Nat) (entries : PairEntries),
    entries.Shaped groups members → LevelItems groups (entryIn k entries)
  | _, .nil, _ => by simpa [entryIn] using ⟨List.nodup_nil, trivial⟩
  | 0, .cons entry _, shaped => ⟨shaped.2.1, shaped.2.2.2.1⟩
  | k + 1, .cons _ more, shaped => entry_in_level groups members k more shaped.2.2.2.2

theorem entry_at_level (groups : Groups Text) (counter : Text) (k : Nat) (items : PairItems) (shaped : items.Shaped groups) :
    LevelItems groups (entryAt counter k items) := by
  match items with
  | .nil => exact ⟨List.nodup_nil, trivial⟩
  | .field own val more => exact entry_at_level groups counter k more shaped.2
  | .group own val entries more =>
      obtain ⟨⟨members, _, entriesShaped⟩, moreShaped⟩ := shaped
      by_cases same : own = counter
      · rw [entryAt, if_pos same]
        exact entry_in_level groups members k entries entriesShaped
      · rw [entryAt, if_neg same]
        exact entry_at_level groups counter k more moreShaped

theorem children_at_nil (k : Nat) : childrenAt k [] = [] := by simp [childrenAt]

theorem first_blocked (idx : Column) (items : PairItems) (distinct : items.tags.Nodup) : Blocked (readInto idx items []) :=
  (pass_kids idx items ⟨[], fun _ => 0⟩ distinct blocked_nil (fun _ _ => rfl) fun _ _ _ => rfl).1

theorem first_kids (idx : Column) (items : PairItems) (tag : Text) (distinct : items.tags.Nodup) :
    kids tag (readInto idx items []) = kidsAfter idx tag items [] :=
  (pass_kids idx items ⟨[], fun _ => 0⟩ distinct blocked_nil (fun _ _ => rfl) fun _ _ _ => rfl).2 tag

theorem second_kids (idx : Column) (items : PairItems) (children : List Ruv) (tag : Text) (distinct : items.tags.Nodup)
    (blocked : Blocked children) (later : idx ≠ 0) :
    kids tag (readInto idx items children) = kidsAfter idx tag items (kids tag children) :=
  (pass_kids idx items ⟨children, fun _ => 0⟩ distinct blocked (fun _ _ => rfl) fun zero => absurd zero later).2 tag

theorem plain_compared (tag : Text) (first second : Option Text) :
    let one := (first.map fun val => markField 0 (tag, val) []).getD []
    let two := (second.map fun val => markField 0 (tag, val) []).getD []
    let both := (second.map fun val => markField 1 (tag, val) one).getD one
    Compared one two both := by
  cases first with
  | none =>
      cases second with
      | none => constructor <;> simp
      | some right => constructor <;> simp [markField, valueOf, Ruv.newAt]
  | some left =>
      cases second with
      | none => constructor <;> simp [markField, valueOf, Ruv.newAt]
      | some right => constructor <;> simp [markField, valueOf, Ruv.newAt, Ruv.setVal]

-- Induction on the path: a step leads both passes to the entries it names.
theorem trees_compared (groups : Groups Text) (tag : Text) (plain : groups tag = none) (path : List (Text × Nat))
    (left right : PairItems) (leftLevel : LevelItems groups left) (rightLevel : LevelItems groups right) :
    Compared (leavesAt path tag (readInto 0 left [])) (leavesAt path tag (readInto 0 right []))
      (leavesAt path tag (readInto 1 right (readInto 0 left []))) := by
  have later : (1 : Column) ≠ 0 := by decide
  have blocked := first_blocked 0 left leftLevel.distinct
  induction path generalizing left right with
  | nil =>
      simp only [leavesAt]
      rw [second_kids 1 right _ tag rightLevel.distinct blocked later, first_kids 0 left tag leftLevel.distinct,
        first_kids 0 right tag rightLevel.distinct,
        kids_after_plain 0 groups tag left [] leftLevel.distinct leftLevel.shaped plain,
        kids_after_plain 0 groups tag right [] rightLevel.distinct rightLevel.shaped plain,
        kids_after_plain 1 groups tag right _ rightLevel.distinct rightLevel.shaped plain]
      exact plain_compared tag (fieldAt tag left) (fieldAt tag right)
  | cons step path ih =>
      obtain ⟨counter, k⟩ := step
      have leftEntry := entry_at_level groups counter k left leftLevel.shaped
      have rightEntry := entry_at_level groups counter k right rightLevel.shaped
      simp only [leavesAt]
      rw [second_kids 1 right _ counter rightLevel.distinct blocked later, first_kids 0 left counter leftLevel.distinct,
        first_kids 0 right counter rightLevel.distinct, children_at_after 1 counter k right _ rightLevel.distinct,
        children_at_after 0 counter k left _ leftLevel.distinct, children_at_after 0 counter k right _ rightLevel.distinct,
        children_at_nil]
      exact ih _ _ leftEntry rightEntry (first_blocked 0 _ leftEntry.distinct)

theorem rmake_compares (rRPGs : Groups Text) (v1 v2 : List TagVal) (plain1 : LastPlain rRPGs v1) (plain2 : LastPlain rRPGs v2)
    (once1 : (topTags v1 rRPGs (enoughFuel v1) 0).Nodup) (once2 : (topTags v2 rRPGs (enoughFuel v2) 0).Nodup) :
    ∃ one two both, rmakeRoot [] v1 rRPGs 0 = .ok one ∧ rmakeRoot [] v2 rRPGs 0 = .ok two ∧
      rmakeRoot one v2 rRPGs 1 = .ok both ∧
      ∀ path tag, rRPGs tag = none → Compared (leavesAt path tag one) (leavesAt path tag two) (leavesAt path tag both) := by
  obtain ⟨left, rfl, leftParsed⟩ := exists_parsed rRPGs v1 plain1
  obtain ⟨right, rfl, rightParsed⟩ := exists_parsed rRPGs v2 plain2
  rw [top_tags_items rRPGs left leftParsed] at once1
  rw [top_tags_items rRPGs right rightParsed] at once2
  refine ⟨_, _, _, root_parsed [] rRPGs 0 left leftParsed, root_parsed [] rRPGs 0 right rightParsed,
    root_parsed _ rRPGs 1 right rightParsed, fun path tag plain => ?_⟩
  exact trees_compared rRPGs tag plain path left right ⟨once1, parsed_shaped rRPGs none left [] leftParsed⟩
    ⟨once2, parsed_shaped rRPGs none right [] rightParsed⟩

theorem rmake_compares_parties :
    let parties : Groups Text := fun tag => if tag = "453".toList then some {"448".toList, "447".toList} else none
    let v1 := [("453".toList, "2".toList), ("448".toList, "A".toList), ("448".toList, "B".toList)]
    let v2 := [("453".toList, "1".toList), ("448".toList, "C".toList), ("447".toList, "D".toList)]
    let entry (counter : String) (fields : List Ruv) := (Ruv.new ("453".toList, counter.toList)).setChildren fields
    let one := [entry "2" [Ruv.new ("448".toList, "A".toList)], entry "2" [Ruv.new ("448".toList, "B".toList)]]
    let two := [entry "1" [Ruv.new ("448".toList, "C".toList), Ruv.new ("447".toList, "D".toList)]]
    let both := [entry "2" [(Ruv.new ("448".toList, "A".toList)).setVal 1 "C".toList, Ruv.newAt 1 ("447".toList, "D".toList)],
      entry "2" [Ruv.new ("448".toList, "B".toList)]]
    rmakeRoot [] v1 parties 0 = .ok one ∧ rmakeRoot [] v2 parties 0 = .ok two ∧ rmakeRoot one v2 parties 1 = .ok both ∧
      ∀ path tag, parties tag = none → Compared (leavesAt path tag one) (leavesAt path tag two) (leavesAt path tag both) := by
  intro parties v1 v2 entry one two both
  have plain1 : LastPlain parties v1 := last_plain_at parties v1 _ rfl (by decide)
  have plain2 : LastPlain parties v2 := last_plain_at parties v2 _ rfl (by decide)
  have first : rmakeRoot [] v1 parties 0 = .ok one := rfl
  have second : rmakeRoot [] v2 parties 0 = .ok two := rfl
  have third : rmakeRoot one v2 parties 1 = .ok both := rfl
  obtain ⟨one', two', both', madeOne, madeTwo, madeBoth, compared⟩ := rmake_compares parties v1 v2 plain1 plain2 (by decide) (by decide)
  obtain rfl := Except.ok.inj (first.symm.trans madeOne)
  obtain rfl := Except.ok.inj (second.symm.trans madeTwo)
  obtain rfl := Except.ok.inj (third.symm.trans madeBoth)
  exact ⟨first, second, third, compared⟩

end Libx.Viewer

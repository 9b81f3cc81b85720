import Libx.Ruv.Again

set_option autoImplicit false

namespace Libx.Viewer

open Counted

-- The nodes that the display prints with their values; it prints a node that
-- has children with the value of the first column only.
mutual
def leavesOf : Ruv → List Ruv
  | .node tag val [] => [.node tag val []]
  | .node _ _ (p :: rest) => leavesOf p ++ leaves rest
def leaves : List Ruv → List Ruv
  | [] => []
  | p :: rest => leavesOf p ++ leaves rest
end

inductive PrintsDifference (p : Ruv) : Prop where
  | second (shown : p.val 1 ≠ []) (different : p.val 0 ≠ p.val 1)
  | third (shown : p.val 1 ≠ []) (shownThird : p.val 2 ≠ []) (different : p.val 1 ≠ p.val 2)

structure SameValues (p : Ruv) : Prop where
  equal : p.val 0 = p.val 1
  quiet : ¬ PrintsDifference p

theorem leaves_of_leaf (p : Ruv) (childless : p.children = []) : leavesOf p = [p] := by
  obtain ⟨tag, val, children⟩ := p
  obtain rfl : children = [] := childless
  rw [leavesOf]

theorem leaves_of_parent (p : Ruv) (parent : p.children ≠ []) : leavesOf p = leaves p.children := by
  obtain ⟨tag, val, children⟩ := p
  cases children with
  | nil => exact absurd rfl parent
  | cons q rest => rw [leavesOf, Ruv.children, leaves]

def NodeSame (p : Ruv) : Prop := ∀ leaf ∈ leavesOf p, SameValues leaf
def LeavesSame (nodes : List Ruv) : Prop := ∀ leaf ∈ leaves nodes, SameValues leaf

theorem leaves_same_iff (nodes : List Ruv) : LeavesSame nodes ↔ ∀ p ∈ nodes, NodeSame p := by
  induction nodes with
  | nil => simp [LeavesSame, leaves]
  | cons p rest ih =>
      rw [LeavesSame] at ih ⊢
      simp only [leaves, List.mem_append, List.mem_cons, or_imp, forall_and, forall_eq, ih, NodeSame]

theorem node_same_leaf (p : Ruv) (childless : p.children = []) : NodeSame p ↔ SameValues p := by
  simp [NodeSame, leaves_of_leaf p childless]

theorem node_same_parent (p : Ruv) (parent : p.children ≠ []) : NodeSame p ↔ LeavesSame p.children := by
  rw [NodeSame, leaves_of_parent p parent, LeavesSame]

theorem same_of_equal (p : Ruv) (equal : p.val 0 = p.val 1) (unused : p.val 2 = []) : SameValues p := by
  refine ⟨equal, fun difference => ?_⟩
  cases difference with
  | second _ different => exact different equal
  | third _ shownThird _ => exact shownThird unused

theorem new_same_iff (pair : TagVal) : SameValues (Ruv.newAt 0 pair) ↔ pair.2 = [] := by
  constructor
  · intro same
    simpa [Ruv.newAt] using same.equal
  · intro empty
    apply same_of_equal <;> simp [Ruv.newAt, empty]

theorem marked_same_iff (pair : TagVal) (value : Text) : SameValues ((Ruv.newAt 0 pair).setVal 1 value) ↔ pair.2 = value := by
  constructor
  · intro same
    simpa [Ruv.newAt, Ruv.setVal] using same.equal
  · intro equal
    apply same_of_equal <;> simp [Ruv.newAt, Ruv.setVal, equal]

def fieldValues (tag : Text) : PairItems → List Text
  | .nil => []
  | .field own val more => if own = tag then val :: fieldValues tag more else fieldValues tag more
  | .group _ _ _ more => fieldValues tag more

def Bare : PairItems → Prop
  | .nil => True
  | .field _ _ _ => False
  | .group _ _ entries more => entries = .nil ∧ Bare more

def RepeatsEmpty (items : PairItems) : Prop :=
  ∀ tag, 2 ≤ (fieldValues tag items).length → ∀ val ∈ fieldValues tag items, val = []

mutual
def BareEmpty : PairItems → Prop
  | .nil => True
  | .field _ _ more => BareEmpty more
  | .group _ val entries more => BareEntriesEmpty val entries ∧ BareEmpty more
def BareEntriesEmpty (val : Text) : PairEntries → Prop
  | .nil => True
  | .cons entry more => (Bare entry → val = []) ∧ BareEmpty entry ∧ BareEntriesEmpty val more
end

theorem field_values_plain (groups : Groups Text) (tag : Text) (items : PairItems) (shaped : items.Shaped groups)
    (present : fieldValues tag items ≠ []) : groups tag = none := by
  cases items with
  | nil => exact absurd rfl present
  | field own val more =>
      by_cases same : own = tag
      · exact same ▸ shaped.1
      · rw [fieldValues, if_neg same] at present
        exact field_values_plain groups tag more shaped.2 present
  | group own val entries more => exact field_values_plain groups tag more shaped.2 present

theorem field_values_count (tag : Text) (items : PairItems) : (fieldValues tag items).length ≤ items.tags.count tag := by
  cases items with
  | nil => simp [fieldValues]
  | field own val more =>
      have later := field_values_count tag more
      by_cases same : own = tag
      · simpa [fieldValues, Items.tags, same] using later
      · simpa [fieldValues, Items.tags, same] using later
  | group own val entries more =>
      have later := field_values_count tag more
      rw [fieldValues, Items.tags]
      exact later.trans ((List.sublist_cons_self own more.tags).count_le tag)

theorem distinct_repeats (items : PairItems) (distinct : items.tags.Nodup) : RepeatsEmpty items := by
  intro tag twice
  have bound := field_values_count tag items
  have once := List.nodup_iff_count_le_one.mp distinct tag
  omega

theorem first_fields (groups : Groups Text) (tag : Text) (plain : groups tag = none) (items : PairItems)
    (shaped : items.Shaped groups) :
    kids tag (nodesOf 0 items) = (fieldValues tag items).map fun val => Ruv.newAt 0 (tag, val) := by
  cases items with
  | nil => rfl
  | field own val more =>
      have later := first_fields groups tag plain more shaped.2
      rw [nodesOf, kids_cons, new_at_tag, fieldValues, later]
      by_cases same : own = tag
      · simp [same]
      · simp [same]
  | group own val entries more =>
      obtain ⟨⟨members, kind, _⟩, moreShaped⟩ := shaped
      have different : tag ≠ own := fun same => by simp [same, kind] at plain
      rw [nodesOf, kids_append, kids_other own tag _ (overlay_first_tagged (own, val) entries) different, List.nil_append,
        first_fields groups tag plain more moreShaped, fieldValues]

theorem groups_again_counter (groups : Groups Text) (items : PairItems) (shaped : items.Shaped groups) (p : Ruv)
    (inside : p ∈ groupsAgain 0 1 items) : groups p.tag ≠ none := by
  cases items with
  | nil => simp [groupsAgain] at inside
  | field own val more => exact groups_again_counter groups more shaped.2 p inside
  | group own val entries more =>
      obtain ⟨⟨members, kind, _⟩, moreShaped⟩ := shaped
      cases List.mem_append.mp inside with
      | inl entry =>
          rw [overlay_twice_tagged (own, val) entries p entry, kind]
          simp
      | inr later => exact groups_again_counter groups more moreShaped p later

theorem set_val_again (p : Ruv) (idx : Column) (value other : Text) :
    (p.setVal idx value).setVal idx other = p.setVal idx other := by
  cases p with
  | node tag val children => simp [Ruv.setVal]

theorem kids_after_values (groups : Groups Text) (tag : Text) (plain : groups tag = none) (items : PairItems)
    (olds : List Ruv) (shaped : items.Shaped groups) :
    kidsAfter 1 tag items olds = (fieldValues tag items).foldl (fun nodes val => markField 1 (tag, val) nodes) olds := by
  cases items with
  | nil => rfl
  | field own val more =>
      rw [kidsAfter, kids_after_values groups tag plain more _ shaped.2, fieldValues]
      by_cases same : own = tag
      · simp [same]
      · simp [same]
  | group own val entries more =>
      obtain ⟨⟨members, kind, _⟩, moreShaped⟩ := shaped
      have different : own ≠ tag := fun same => by simp [← same, kind] at plain
      rw [kidsAfter, if_neg different, kids_after_values groups tag plain more _ moreShaped, fieldValues]

theorem mark_last (tag : Text) (values : List Text) (p : Ruv) (rest : List Ruv) :
    values.foldl (fun nodes val => markField 1 (tag, val) nodes) (p :: rest) =
      (values.getLast?.map fun val => p.setVal 1 val).getD p :: rest := by
  induction values generalizing p with
  | nil => rfl
  | cons val more ih =>
      rw [List.foldl_cons, markField, ih, List.getLast?_cons]
      cases more.getLast? with
      | none => rfl
      | some last => simp [set_val_again]

-- The second pass writes every value of a tag into the first node of the tag.
def fieldsAgain (one two : Column) (tag : Text) : List Text → List Ruv
  | [] => []
  | val :: more =>
      (Ruv.newAt one (tag, val)).setVal two (more.getLast?.getD val) :: more.map fun other => Ruv.newAt one (tag, other)

theorem again_fields (groups : Groups Text) (tag : Text) (plain : groups tag = none) (items : PairItems)
    (shaped : items.Shaped groups) :
    kidsAfter 1 tag items (kids tag (nodesOf 0 items)) = fieldsAgain 0 1 tag (fieldValues tag items) := by
  rw [kids_after_values groups tag plain items _ shaped, first_fields groups tag plain items shaped]
  cases fieldValues tag items with
  | nil => rfl
  | cons val more => rw [List.map_cons, mark_last, List.getLast?_cons, Option.map_some, Option.getD_some, fieldsAgain]

theorem last_empty_iff (val : Text) (more : List Text) :
    (val = more.getLast?.getD val ∧ ∀ other ∈ more, other = []) ↔
      (2 ≤ (val :: more).length → ∀ other ∈ val :: more, other = []) := by
  cases more with
  | nil => simp
  | cons next others =>
      have last : (next :: others).getLast? = some ((next :: others).getLast (by simp)) := List.getLast?_eq_some_getLast (by simp)
      have inside : (next :: others).getLast (by simp) ∈ next :: others := List.getLast_mem _
      rw [last, Option.getD_some]
      constructor
      · rintro ⟨equal, empty⟩ _ other member
        rcases List.mem_cons.mp member with rfl | later
        · exact equal.trans (empty _ inside)
        · exact empty other later
      · intro empty
        have all := empty (by simp)
        exact ⟨(all val (by simp)).trans (all _ (by simp [inside])).symm, fun other member => all other (by simp [member])⟩

theorem fields_again_same (tag : Text) (values : List Text) :
    (∀ p ∈ fieldsAgain 0 1 tag values, NodeSame p) ↔ (2 ≤ values.length → ∀ val ∈ values, val = []) := by
  cases values with
  | nil => simp [fieldsAgain]
  | cons val more =>
      have head : NodeSame ((Ruv.newAt 0 (tag, val)).setVal 1 (more.getLast?.getD val)) ↔ val = more.getLast?.getD val := by
        rw [node_same_leaf _ (by rw [set_val_children]; rfl), marked_same_iff]
      have others (other : Text) : NodeSame (Ruv.newAt 0 (tag, other)) ↔ other = [] := by
        rw [node_same_leaf _ rfl, new_same_iff]
      rw [← last_empty_iff]
      simp [fieldsAgain, head, others]

theorem level_same_iff (groups : Groups Text) (items : PairItems) (shaped : items.Shaped groups) :
    LeavesSame (readInto 1 items (readInto 0 items [])) ↔ RepeatsEmpty items ∧ ∀ p ∈ groupsAgain 0 1 items, NodeSame p := by
  obtain ⟨plainKids, counterKids⟩ := pass_again groups items ⟨nodesOf 0 items, fun _ => 0⟩ (fun _ => []) shaped
    ⟨fun _ => rfl, fun _ _ => rfl⟩
  have fieldsSame (tag : Text) (plain : groups tag = none) :
      (∀ p ∈ kids tag (readInto 1 items (nodesOf 0 items)), NodeSame p) ↔
        (2 ≤ (fieldValues tag items).length → ∀ val ∈ fieldValues tag items, val = []) := by
    rw [← fields_again_same tag, ← again_fields groups tag plain items shaped, ← plainKids tag plain, readInto]
  have member (p : Ruv) (nodes : List Ruv) : p ∈ nodes ↔ p ∈ kids p.tag nodes := by simp [kids]
  rw [read_first, leaves_same_iff]
  constructor
  · intro same
    refine ⟨fun tag twice => ?_, fun p inside => ?_⟩
    · have plain := field_values_plain groups tag items shaped fun none_ => by simp [none_] at twice
      exact (fieldsSame tag plain).mp (fun p inside => same p (List.mem_of_mem_filter inside)) twice
    · have counter : groups p.tag ≠ none := groups_again_counter groups items shaped p inside
      apply same p
      rw [member, readInto, counterKids p.tag counter, List.nil_append, ← member]
      exact inside
  · rintro ⟨repeats, nodes⟩ p inside
    rw [member] at inside
    by_cases plain : groups p.tag = none
    · exact (fieldsSame p.tag plain).mpr (repeats p.tag) p inside
    · rw [readInto, counterKids p.tag plain, List.nil_append, ← member] at inside
      exact nodes p inside

theorem bare_reads_nothing (idx : Column) (items : PairItems) (level : Level) (bare : Bare items) :
    (levelBuilder idx).items items level = level := by
  cases items with
  | nil => rw [Builder.items]
  | field own val more => exact bare.elim
  | group own val entries more =>
      obtain ⟨rfl, moreBare⟩ := bare
      rw [Builder.items, Builder.entries, bare_reads_nothing idx more level moreBare]

theorem nodes_bare (items : PairItems) (nothing : nodesOf 0 items = []) : Bare items := by
  cases items with
  | nil => trivial
  | field own val more => simp [nodesOf] at nothing
  | group own val entries more =>
      obtain ⟨noEntries, noMore⟩ := List.append_eq_nil_iff.mp nothing
      exact ⟨(overlay_filled 0 (own, val) entries [] noEntries).2, nodes_bare more noMore⟩

theorem place_length (idx : Column) (pair : TagVal) (wanted : Nat) (children : List Ruv) :
    children.length ≤ (placeEntry idx pair wanted children).1.length := by
  rw [placeEntry]
  split
  · simp
  · split
    · rfl
    · exact List.length_le_length_insertIdx

theorem set_field_length (idx : Column) (pair : TagVal) (children : List Ruv) :
    children.length ≤ (setField idx pair children).length := by
  induction children with
  | nil => simp
  | cons p rest ih =>
      by_cases own : p.tag = pair.1
      · simp [setField, own]
      · simpa [setField, own] using ih

theorem add_field_length (idx : Column) (pair : TagVal) (children : List Ruv) :
    children.length ≤ (addField idx pair children).length := by
  by_cases firstPass : idx = 0
  · simp [addField, firstPass]
  · rw [addField, if_neg firstPass]
    exact set_field_length idx pair children

mutual
theorem items_length (idx : Column) (items : PairItems) (level : Level) :
    level.children.length ≤ ((levelBuilder idx).items items level).children.length := by
  cases items with
  | nil => rw [Builder.items]
  | field own val more =>
      have later := items_length idx more { level with children := addField idx (own, val) level.children }
      rw [Builder.items]
      exact (add_field_length idx (own, val) level.children).trans later
  | group own val entries more =>
      have later := items_length idx more ((levelBuilder idx).entries (own, val) entries level)
      rw [Builder.items]
      exact (entries_length idx (own, val) entries level).trans later
theorem entries_length (idx : Column) (counter : TagVal) (entries : PairEntries) (level : Level) :
    level.children.length ≤ ((levelBuilder idx).entries counter entries level).children.length := by
  cases entries with
  | nil => rw [Builder.entries]
  | cons entry more =>
      have here := place_length idx counter (level.counting counter.1 + 1) level.children
      rw [Builder.entries]
      refine le_trans ?_ (entries_length idx counter more _)
      simpa [levelBuilder, placed] using here
end

theorem twice_empty_iff (items : PairItems) : readInto 1 items (readInto 0 items []) = [] ↔ Bare items := by
  constructor
  · intro empty
    have kept := items_length 1 items ⟨readInto 0 items [], fun _ => 0⟩
    rw [readInto] at empty
    rw [empty] at kept
    have first := List.length_eq_zero_iff.mp (Nat.le_zero.mp kept)
    rw [read_first] at first
    exact nodes_bare items first
  · intro bare
    rw [readInto, bare_reads_nothing 1 items _ bare, readInto, bare_reads_nothing 0 items _ bare]

theorem bare_fine (items : PairItems) (bare : Bare items) : BareEmpty items := by
  cases items with
  | nil => trivial
  | field own val more => exact bare.elim
  | group own val entries more =>
      obtain ⟨rfl, moreBare⟩ := bare
      exact ⟨trivial, bare_fine more moreBare⟩

theorem bare_leaf_iff (counter : TagVal) (entry : PairItems) (bare : Bare entry) :
    NodeSame (((Ruv.newAt 0 counter).setChildren (readInto 0 entry [])).setChildren
      (readInto 1 entry (readInto 0 entry []))) ↔ counter.2 = [] := by
  have childless := (twice_empty_iff entry).mpr bare
  rw [node_same_leaf _ (by simpa using childless), childless]
  exact new_same_iff counter

-- One case for each constructor: an entry without nodes is a leaf itself, any
-- other is the same when its children are.
mutual
theorem nodes_same_iff (groups : Groups Text) (items : PairItems) (shaped : items.Shaped groups) :
    (∀ p ∈ groupsAgain 0 1 items, NodeSame p) ↔ BareEmpty items := by
  cases items with
  | nil => simp [groupsAgain, BareEmpty]
  | field own val more =>
      rw [groupsAgain, BareEmpty]
      exact nodes_same_iff groups more shaped.2
  | group own val entries more =>
      obtain ⟨⟨members, _, entriesShaped⟩, moreShaped⟩ := shaped
      have inner := entries_same_iff groups members (own, val) entries entriesShaped
      rw [groupsAgain, BareEmpty, ← inner, ← nodes_same_iff groups more moreShaped]
      simp only [List.mem_append, or_imp, forall_and]
theorem entries_same_iff (groups : Groups Text) (members : Finset Text) (counter : TagVal) (entries : PairEntries)
    (shaped : entries.Shaped groups members) :
    (∀ p ∈ overlay 1 counter entries (overlay 0 counter entries []), NodeSame p) ↔ BareEntriesEmpty counter.2 entries := by
  cases entries with
  | nil => simp [overlay, BareEntriesEmpty]
  | cons entry more =>
      obtain ⟨_, distinct, _, entryShaped, moreShaped⟩ := shaped
      have inside : LeavesSame (readInto 1 entry (readInto 0 entry [])) ↔ BareEmpty entry := by
        rw [level_same_iff groups entry entryShaped, nodes_same_iff groups entry entryShaped]
        exact and_iff_right (distinct_repeats entry distinct)
      have later := entries_same_iff groups members counter more moreShaped
      simp only [overlay, List.mem_cons, forall_eq_or_imp, set_children_children, BareEntriesEmpty]
      rw [later, ← and_assoc]
      refine and_congr_left fun _ => ?_
      by_cases bare : Bare entry
      · rw [bare_leaf_iff counter entry bare]
        simp [bare, bare_fine entry bare]
      · have parent : readInto 1 entry (readInto 0 entry []) ≠ [] := fun empty => bare ((twice_empty_iff entry).mp empty)
        rw [node_same_parent _ (by simpa using parent), set_children_children, inside]
        simp [bare]
end

def Repeatable (rRPGs : Groups Text) (rTagVals : List TagVal) : Prop :=
  ∃ items : PairItems, rTagVals = items.render ∧ items.Parsed rRPGs none [] ∧ RepeatsEmpty items ∧ BareEmpty items

theorem self_compare_iff (rRPGs : Groups Text) (v : List TagVal) (plain : LastPlain rRPGs v) :
    ∃ one both, rmakeRoot [] v rRPGs 0 = .ok one ∧ rmakeRoot one v rRPGs 1 = .ok both ∧
      (LeavesSame both ↔ Repeatable rRPGs v) := by
  have parsedSame (items : PairItems) (parsed : items.Parsed rRPGs none []) :
      LeavesSame (readInto 1 items (readInto 0 items [])) ↔ RepeatsEmpty items ∧ BareEmpty items := by
    have shaped := parsed_shaped rRPGs none items [] parsed
    rw [level_same_iff rRPGs items shaped, nodes_same_iff rRPGs items shaped]
  obtain ⟨items, rfl, parsed⟩ := exists_parsed rRPGs v plain
  have first := root_parsed [] rRPGs 0 items parsed
  have second := root_parsed (readInto 0 items []) rRPGs 1 items parsed
  refine ⟨_, _, first, second, fun same => ⟨items, rfl, parsed, (parsedSame items parsed).mp same⟩, ?_⟩
  rintro ⟨others, equal, othersParsed, empty⟩
  have firstOthers := root_parsed [] rRPGs 0 others othersParsed
  rw [← equal, first, Except.ok.injEq] at firstOthers
  have secondOthers := root_parsed (readInto 0 items []) rRPGs 1 others othersParsed
  rw [← equal, second, Except.ok.injEq] at secondOthers
  rw [secondOthers, firstOthers]
  exact (parsedSame others othersParsed).mpr empty

theorem self_compare_iff_parties :
    let parties : Groups Text := fun tag => if tag = "453".toList then some {"448".toList, "447".toList} else none
    let v := [("453".toList, "2".toList), ("448".toList, "A".toList), ("448".toList, "B".toList), ("58".toList, "t".toList)]
    let entry (field : Ruv) := (Ruv.new ("453".toList, "2".toList)).setChildren [field]
    let field (tag value : String) := Ruv.new (tag.toList, value.toList)
    let both := [entry ((field "448" "A").setVal 1 "A".toList), entry ((field "448" "B").setVal 1 "B".toList),
      (field "58" "t").setVal 1 "t".toList]
    rmakeRoot [] v parties 0 = .ok [entry (field "448" "A"), entry (field "448" "B"), field "58" "t"] ∧
      rmakeRoot [entry (field "448" "A"), entry (field "448" "B"), field "58" "t"] v parties 1 = .ok both ∧ LeavesSame both := by
  intro parties v entry field both
  obtain ⟨one', both', first, second, same⟩ := self_compare_iff parties v (last_plain_at parties v _ rfl (by decide))
  have madeOne : rmakeRoot [] v parties 0 = .ok [entry (field "448" "A"), entry (field "448" "B"), field "58" "t"] := rfl
  have madeBoth : rmakeRoot [entry (field "448" "A"), entry (field "448" "B"), field "58" "t"] v parties 1 = .ok both := rfl
  obtain rfl := Except.ok.inj (madeOne.symm.trans first)
  obtain rfl := Except.ok.inj (madeBoth.symm.trans second)
  let items : PairItems := .group "453".toList "2".toList
    (.cons (.field "448".toList "A".toList .nil) (.cons (.field "448".toList "B".toList .nil) .nil)) (.field "58".toList "t".toList .nil)
  have read : items.Parsed parties none [] := by simp [items, parties, Items.Parsed, Entries.Parsed, HeadIn, Stops]
  have single : RepeatsEmpty items := by
    intro tag twice
    have values : fieldValues tag items = if "58".toList = tag then ["t".toList] else [] := rfl
    by_cases own : "58".toList = tag
    · rw [values, if_pos own] at twice
      exact absurd twice (by decide)
    · rw [values, if_neg own] at twice
      exact absurd twice (by decide)
  have filled : BareEmpty items := by simp [items, BareEmpty, BareEntriesEmpty, Bare]
  exact ⟨madeOne, madeBoth, same.mpr ⟨items, by simp [items, v], read, single, filled⟩⟩

theorem repeated_field_differs :
    ¬ ∀ (rRPGs : Groups Text) (v : List TagVal), LastPlain rRPGs v →
      ∃ one both, rmakeRoot [] v rRPGs 0 = .ok one ∧ rmakeRoot one v rRPGs 1 = .ok both ∧ LeavesSame both := by
  intro claim
  let first : TagVal := ("58".toList, "a".toList)
  let second : TagVal := ("58".toList, "b".toList)
  obtain ⟨one, both, made, again, same⟩ := claim (fun _ => none) [first, second] fun _ _ => rfl
  have madeNodes : rmakeRoot [] [first, second] (fun _ => none) 0 = .ok [Ruv.new first, Ruv.new second] := rfl
  rw [madeNodes, Except.ok.injEq] at made
  subst made
  have againNodes : rmakeRoot [Ruv.new first, Ruv.new second] [first, second] (fun _ => none) 1 =
      .ok [((Ruv.new first).setVal 1 first.2).setVal 1 second.2, Ruv.new second] := rfl
  rw [againNodes, Except.ok.injEq] at again
  subst again
  have unmarked := same (Ruv.new second) (by simp [leaves, leavesOf, Ruv.new, Ruv.setVal])
  have value := unmarked.equal
  simp [Ruv.new, second] at value

end Libx.Viewer

import Libx.Ruv.Compare

set_option autoImplicit false

namespace Libx.Viewer

open Counted

-- A second pass over what a first pass of the same items left: every node it
-- looks for is there, so it inserts nothing, at whatever order the tags come.
theorem kids_cons (tag : Text) (p : Ruv) (rest : List Ruv) :
    kids tag (p :: rest) = if p.tag = tag then p :: kids tag rest else kids tag rest := by
  simp [kids, List.filter_cons]

theorem kids_cut (tag : Text) (children done rest : List Ruv) (p : Ruv) (shape : kids tag children = done ++ p :: rest) :
    ∃ front back, children = front ++ p :: back ∧ kids tag front = done ∧ kids tag back = rest ∧ p.tag = tag := by
  obtain ⟨front, others, rfl, frontKids, othersKids⟩ := List.filter_eq_append_iff.mp shape
  obtain ⟨skipped, back, rfl, foreign, own, backKids⟩ := List.filter_eq_cons_iff.mp othersKids
  refine ⟨front ++ skipped, back, by simp, ?_, backKids, by simpa using own⟩
  have none_ := kids_untagged tag skipped fun q inside => by simpa using foreign q inside
  rw [kids_append, none_, List.append_nil]
  exact frontKids

theorem set_field_kids (idx : Column) (pair : TagVal) (tag : Text) (children : List Ruv) :
    kids tag (setField idx pair children) =
      if pair.1 = tag then markField idx pair (kids tag children) else kids tag children := by
  induction children with
  | nil => by_cases same : pair.1 = tag <;> simp [setField, kids, markField, same]
  | cons p rest ih =>
      by_cases own : p.tag = pair.1
      · rw [setField, if_pos own, kids_cons, kids_cons, set_val_tag, own]
        split_ifs <;> simp [markField]
      · rw [setField, if_neg own, kids_cons, kids_cons, ih]
        by_cases same : pair.1 = tag
        · have different : p.tag ≠ tag := fun equal => own (equal.trans same.symm)
          simp [same, different]
        · simp [same]

theorem seek_found (tag : Text) (front back : List Ruv) (p : Ruv) (i ref count : Nat) (own : p.tag = tag) :
    (seekEntry tag (count + (kids tag front).length + 1) (front ++ p :: back) i ref count).1 = some (i + front.length) := by
  induction front generalizing i ref count with
  | nil => simp [kids, seekEntry, own]
  | cons q rest ih =>
      by_cases same : q.tag = tag
      · have early : count + 1 ≠ count + ((kids tag rest).length + 1) + 1 := by omega
        have later := ih (i + 1) (ref + 1) (count + 1)
        rw [show count + 1 + (kids tag rest).length + 1 = count + ((kids tag rest).length + 1) + 1 by omega] at later
        rw [kids_cons, if_pos same, List.length_cons, List.cons_append, seekEntry, if_pos same, if_neg early, later,
          List.length_cons]
        congr 1
        omega
      · rw [kids_cons, if_neg same, List.cons_append, seekEntry, if_neg same]
        split_ifs
        · rw [ih, List.length_cons]
          congr 1
          omega
        · rw [ih, List.length_cons]
          congr 1
          omega

theorem place_again (idx : Column) (counter : TagVal) (front back : List Ruv) (p : Ruv) (later : idx ≠ 0)
    (own : p.tag = counter.1) :
    placeEntry idx counter ((kids counter.1 front).length + 1) (front ++ p :: back) = (front ++ p :: back, front.length) := by
  have found := seek_found counter.1 front back p 0 0 0 own
  rw [Nat.zero_add, Nat.zero_add] at found
  rw [placeEntry, if_neg later]
  split <;> simp_all

theorem entry_again (idx : Column) (counter : TagVal) (entry : PairItems) (level : Level) (done rest : List Ruv) (p : Ruv)
    (later : idx ≠ 0) (counted : level.counting counter.1 = done.length)
    (waiting : kids counter.1 level.children = done ++ p :: rest) :
    let after := (levelBuilder idx).leave level counter
      ((levelBuilder idx).items entry ((levelBuilder idx).enter level counter))
    kids counter.1 after.children = done ++ p.setChildren (readInto idx entry p.children) :: rest ∧
      (∀ tag, tag ≠ counter.1 → kids tag after.children = kids tag level.children) ∧
      after.counting = Function.update level.counting counter.1 (level.counting counter.1 + 1) := by
  obtain ⟨front, back, split, frontKids, backKids, own⟩ := kids_cut counter.1 level.children done rest p waiting
  have place := place_again idx counter front back p later own
  have turn := entry_replaced idx counter front back p entry level (by rw [placed, counted, split, ← frontKids, place])
  simp only [turn, split]
  refine ⟨?_, fun tag different => ?_, trivial⟩
  · rw [kids_append, kids_cons, set_children_tag, if_pos own, frontKids, backKids]
  · have foreign : p.tag ≠ tag := fun same => different (same.symm.trans own)
    rw [kids_append, kids_append, kids_cons, kids_cons, set_children_tag, if_neg foreign, if_neg foreign]

theorem entries_again (idx : Column) (counter : TagVal) (later : idx ≠ 0) (entries : PairEntries) (level : Level)
    (done olds : List Ruv) (counted : level.counting counter.1 = done.length)
    (waiting : kids counter.1 level.children = done ++ olds) (enough : entries.count ≤ olds.length) :
    let after := (levelBuilder idx).entries counter entries level
    kids counter.1 after.children = done ++ overlay idx counter entries olds ∧
      (∀ tag, tag ≠ counter.1 → kids tag after.children = kids tag level.children) ∧
      after.counting = Function.update level.counting counter.1 (level.counting counter.1 + entries.count) := by
  cases entries with
  | nil => simp [Builder.entries, overlay, Entries.count, waiting]
  | cons entry more =>
      cases olds with
      | nil => simp [Entries.count] at enough
      | cons p olds =>
          obtain ⟨own, others, counting⟩ := entry_again idx counter entry level done olds p later counted waiting
          have rest := entries_again idx counter later more _ (done ++ [p.setChildren (readInto idx entry p.children)]) olds
            (by rw [counting]; simp [counted]) (by rw [own]; simp) (by simpa [Entries.count] using enough)
          simp only [Builder.entries, overlay, Entries.count]
          refine ⟨by rw [rest.1]; simp, fun tag different => ?_, ?_⟩
          · rw [rest.2.1 tag different, others tag different]
          · rw [rest.2.2, counting, Function.update_idem, Function.update_self, Nat.add_assoc, Nat.add_comm 1]

def nodesOf (idx : Column) : PairItems → List Ruv
  | .nil => []
  | .field tag val more => Ruv.newAt idx (tag, val) :: nodesOf idx more
  | .group tag val entries more => overlay idx (tag, val) entries [] ++ nodesOf idx more

def groupsAgain (one two : Column) : PairItems → List Ruv
  | .nil => []
  | .field _ _ more => groupsAgain one two more
  | .group tag val entries more =>
      overlay two (tag, val) entries (overlay one (tag, val) entries []) ++ groupsAgain one two more

theorem first_entries (counter : TagVal) (entries : PairEntries) (level : Level) :
    ((levelBuilder 0).entries counter entries level).children = level.children ++ overlay 0 counter entries [] := by
  cases entries with
  | nil => simp [Builder.entries, overlay]
  | cons entry more =>
      have turn := entry_replaced 0 counter level.children [] (Ruv.newAt 0 counter) entry level
        (by simp [placed, placeEntry, new_eq_new_at])
      rw [Builder.entries, turn, first_entries counter more, overlay]
      simp

theorem first_pass (items : PairItems) (level : Level) :
    ((levelBuilder 0).items items level).children = level.children ++ nodesOf 0 items := by
  cases items with
  | nil => simp [Builder.items, nodesOf]
  | field tag val more =>
      rw [Builder.items, first_pass more, nodesOf]
      simp [levelBuilder, addField, new_eq_new_at]
  | group tag val entries more => rw [Builder.items, first_pass more, first_entries, nodesOf, List.append_assoc]

theorem read_first (items : PairItems) : readInto 0 items [] = nodesOf 0 items := by
  rw [readInto, first_pass, List.nil_append]

theorem overlay_length (idx : Column) (counter : TagVal) (entries : PairEntries) (olds : List Ruv) :
    (overlay idx counter entries olds).length = max entries.count olds.length := by
  cases entries with
  | nil => simp [overlay, Entries.count]
  | cons entry more =>
      cases olds with
      | nil => simp [overlay, Entries.count, overlay_length idx counter more]
      | cons p olds =>
          simp only [overlay, Entries.count, List.length_cons, overlay_length idx counter more]
          exact (Nat.add_max_add_right ..).symm

theorem overlay_append (idx : Column) (counter : TagVal) (entries : PairEntries) (olds rest : List Ruv)
    (same : entries.count = olds.length) :
    overlay idx counter entries (olds ++ rest) = overlay idx counter entries olds ++ rest := by
  cases entries with
  | nil =>
      obtain rfl := List.length_eq_zero_iff.mp same.symm
      simp [overlay]
  | cons entry more =>
      cases olds with
      | nil => simp [Entries.count] at same
      | cons p olds =>
          have later := overlay_append idx counter more olds rest (by simpa [Entries.count] using same)
          simp [overlay, later]

theorem overlay_first_tagged (counter : TagVal) (entries : PairEntries) : Tagged counter.1 (overlay 0 counter entries []) :=
  overlay_tagged 0 counter entries [] fun _ inside => by simp at inside

theorem overlay_twice_tagged (counter : TagVal) (entries : PairEntries) :
    Tagged counter.1 (overlay 1 counter entries (overlay 0 counter entries [])) :=
  overlay_tagged 1 counter entries _ (overlay_first_tagged counter entries)

-- `done` holds the nodes of a counter that entries of this pass have used; the
-- rest are those the first pass made of the items still to come.
structure Pending (groups : Groups Text) (items : PairItems) (done : Text → List Ruv) (level : Level) : Prop where
  counted : ∀ tag, level.counting tag = (done tag).length
  waiting : ∀ tag, groups tag ≠ none → kids tag level.children = done tag ++ kids tag (nodesOf 0 items)

theorem add_field_kids (pair : TagVal) (tag : Text) (children : List Ruv) : kids tag (addField 1 pair children) =
    if pair.1 = tag then markField 1 pair (kids tag children) else kids tag children := by
  rw [addField, if_neg (by decide), set_field_kids]

section Turn

variable (groups : Groups Text) (own val : Text) (more : PairItems) (done : Text → List Ruv) (level : Level)

theorem field_again (plain : groups own = none) (pending : Pending groups (.field own val more) done level) :
    Pending groups more done { level with children := addField 1 (own, val) level.children } := by
  refine ⟨pending.counted, fun tag counter => ?_⟩
  have different : own ≠ tag := fun same => counter (same ▸ plain)
  rw [add_field_kids, if_neg different, pending.waiting tag counter, nodesOf, kids_cons, new_at_tag, if_neg different]

theorem group_again (entries : PairEntries) (kind : groups own ≠ none)
    (pending : Pending groups (.group own val entries more) done level) :
    let used := done own ++ overlay 1 (own, val) entries (overlay 0 (own, val) entries [])
    let after := (levelBuilder 1).entries (own, val) entries level
    Pending groups more (Function.update done own used) after ∧
      ∀ tag, tag ≠ own → kids tag after.children = kids tag level.children := by
  have firstTagged := overlay_first_tagged (own, val) entries
  have counts : (overlay 0 (own, val) entries []).length = entries.count := by simp [overlay_length]
  have ownWaiting := pending.waiting own kind
  rw [nodesOf, kids_append, kids_tagged own _ firstTagged] at ownWaiting
  obtain ⟨ownKids, others, counting⟩ := entries_again 1 (own, val) (by decide) entries level (done own) _
    (pending.counted own) ownWaiting (by simp [counts])
  rw [overlay_append 1 (own, val) entries _ _ counts.symm] at ownKids
  refine ⟨⟨fun tag => ?_, fun tag counter => ?_⟩, others⟩
  · by_cases same : tag = own
    · rw [counting, same, Function.update_self, Function.update_self, pending.counted own, List.length_append,
        overlay_length, counts, Nat.max_self]
    · rw [counting, Function.update_of_ne same, Function.update_of_ne same, pending.counted tag]
  · by_cases same : tag = own
    · rw [same, ownKids, Function.update_self, List.append_assoc]
    · rw [others tag same, Function.update_of_ne same, pending.waiting tag counter, nodesOf, kids_append,
        kids_other own tag _ firstTagged same, List.nil_append]

end Turn

-- Induction on the items still to come: the nodes of an ordinary tag change as
-- at any level, those of a counter have all been read again.
theorem pass_again (groups : Groups Text) (items : PairItems) (level : Level) (done : Text → List Ruv)
    (shaped : items.Shaped groups) (pending : Pending groups items done level) :
    (∀ tag, groups tag = none →
      kids tag ((levelBuilder 1).items items level).children = kidsAfter 1 tag items (kids tag level.children)) ∧
    ∀ tag, groups tag ≠ none →
      kids tag ((levelBuilder 1).items items level).children = done tag ++ kids tag (groupsAgain 0 1 items) := by
  cases items with
  | nil =>
      refine ⟨fun _ _ => by simp [Builder.items, kidsAfter], ?_⟩
      simpa only [Builder.items, nodesOf, groupsAgain] using pending.waiting
  | field own val more =>
      obtain ⟨plains, counters⟩ := pass_again groups more _ done shaped.2
        (field_again groups own val more done level shaped.1 pending)
      refine ⟨fun tag plain => ?_, fun tag counter => ?_⟩
      · have fieldKids := add_field_kids (own, val) tag level.children
        rw [Builder.items, kidsAfter, ← fieldKids]
        exact plains tag plain
      · rw [Builder.items, groupsAgain]
        exact counters tag counter
  | group own val entries more =>
      obtain ⟨⟨members, kind, _⟩, moreShaped⟩ := shaped
      obtain ⟨turned, others⟩ := group_again groups own val more done level entries (by simp [kind]) pending
      obtain ⟨plains, counters⟩ := pass_again groups more _ _ moreShaped turned
      refine ⟨fun tag plain => ?_, fun tag counter => ?_⟩
      · have different : own ≠ tag := fun same => by simp [← same, kind] at plain
        rw [Builder.items, kidsAfter, if_neg different, plains tag plain, others tag (Ne.symm different)]
      · rw [Builder.items, counters tag counter, groupsAgain, kids_append]
        have twiceTagged := overlay_twice_tagged (own, val) entries
        by_cases same : tag = own
        · rw [same, Function.update_self, kids_tagged own _ twiceTagged, List.append_assoc]
        · rw [Function.update_of_ne same, kids_other own tag _ twiceTagged same, List.nil_append]

end Libx.Viewer

import Libx.Ruv.Reading
import Mathlib.Data.List.Nodup

set_option autoImplicit false

namespace Libx.Viewer

open Counted

@[simp] theorem node_val (tag : Text) (val : Column → Text) (children : List Ruv) : (Ruv.node tag val children).val = val := rfl
@[simp] theorem set_val_tag (p : Ruv) (idx : Column) (value : Text) : (p.setVal idx value).tag = p.tag := by cases p; rfl
@[simp] theorem set_children_tag (p : Ruv) (children : List Ruv) : (p.setChildren children).tag = p.tag := by cases p; rfl
@[simp] theorem set_children_children (p : Ruv) (children : List Ruv) : (p.setChildren children).children = children := by
  cases p; rfl
@[simp] theorem new_at_tag (idx : Column) (pair : TagVal) : (Ruv.newAt idx pair).tag = pair.1 := rfl
@[simp] theorem new_at_children (idx : Column) (pair : TagVal) : (Ruv.newAt idx pair).children = [] := rfl
theorem new_eq_new_at (pair : TagVal) : Ruv.new pair = Ruv.newAt 0 pair := rfl

def kids (tag : Text) (children : List Ruv) : List Ruv := children.filter fun p => p.tag = tag

def Tagged (tag : Text) (nodes : List Ruv) : Prop := ∀ p ∈ nodes, p.tag = tag
def Untagged (tag : Text) (nodes : List Ruv) : Prop := ∀ p ∈ nodes, p.tag ≠ tag

theorem kids_append (tag : Text) (front back : List Ruv) : kids tag (front ++ back) = kids tag front ++ kids tag back :=
  List.filter_append ..

theorem kids_tagged (tag : Text) (nodes : List Ruv) (tagged : Tagged tag nodes) : kids tag nodes = nodes :=
  List.filter_eq_self.mpr fun p member => by simpa using tagged p member

theorem kids_untagged (tag : Text) (nodes : List Ruv) (untagged : Untagged tag nodes) : kids tag nodes = [] :=
  List.filter_eq_nil_iff.mpr fun p member => by simpa using untagged p member

theorem kids_other (tag other : Text) (nodes : List Ruv) (tagged : Tagged tag nodes) (different : other ≠ tag) :
    kids other nodes = [] :=
  kids_untagged other nodes fun p member same => different (same.symm.trans (tagged p member))

def Blocked (children : List Ruv) : Prop :=
  ∃ blocks : List (Text × List Ruv), (blocks.map Prod.fst).Nodup ∧
    (∀ block ∈ blocks, block.2 ≠ [] ∧ Tagged block.1 block.2) ∧ children = blocks.flatMap Prod.snd

theorem blocked_nil : Blocked [] := ⟨[], by simp, by simp, rfl⟩

theorem blocks_untagged (tag : Text) (blocks : List (Text × List Ruv)) (absent : tag ∉ blocks.map Prod.fst)
    (tagged : ∀ block ∈ blocks, block.2 ≠ [] ∧ Tagged block.1 block.2) : Untagged tag (blocks.flatMap Prod.snd) := by
  intro p member same
  obtain ⟨block, inside, holds⟩ := List.mem_flatMap.mp member
  exact absent (List.mem_map.mpr ⟨block, inside, ((tagged block inside).2 p holds).symm.trans same⟩)

theorem blocked_around (tag : Text) (before after : List (Text × List Ruv)) (others : List Ruv)
    (distinct : (before.map Prod.fst ++ tag :: after.map Prod.fst).Nodup)
    (tagged : ∀ block ∈ before ++ after, block.2 ≠ [] ∧ Tagged block.1 block.2) (filled : others ≠ [])
    (othersTagged : Tagged tag others) : Blocked (before.flatMap Prod.snd ++ others ++ after.flatMap Prod.snd) := by
  refine ⟨before ++ (tag, others) :: after, by simpa using distinct, ?_, by simp⟩
  intro block inside
  rcases List.mem_append.mp inside with early | late
  · exact tagged block (by simp [early])
  · rcases List.mem_cons.mp late with rfl | later
    · exact ⟨filled, othersTagged⟩
    · exact tagged block (by simp [later])

theorem blocked_split (tag : Text) (children : List Ruv) (blocked : Blocked children) :
    ∃ front nodes back, children = front ++ nodes ++ back ∧ Untagged tag front ∧ Tagged tag nodes ∧ Untagged tag back ∧
      (nodes = [] → back = []) ∧
      ∀ others, others ≠ [] → Tagged tag others → Blocked (front ++ others ++ back) := by
  obtain ⟨blocks, distinct, tagged, rfl⟩ := blocked
  by_cases present : tag ∈ blocks.map Prod.fst
  · obtain ⟨⟨own, nodes⟩, member, rfl⟩ := List.mem_map.mp present
    obtain ⟨before, after, rfl⟩ := List.append_of_mem member
    simp only [List.map_append, List.map_cons] at distinct
    obtain ⟨beforeDistinct, restDistinct, apart⟩ := List.nodup_append.mp distinct
    have notBefore : own ∉ before.map Prod.fst := fun inside => apart own inside own (by simp) rfl
    have notAfter : own ∉ after.map Prod.fst := (List.nodup_cons.mp restDistinct).1
    have outside : ∀ block ∈ before ++ after, block.2 ≠ [] ∧ Tagged block.1 block.2 := by
      intro block inside
      rcases List.mem_append.mp inside with early | late
      · exact tagged block (by simp [early])
      · exact tagged block (by simp [late])
    refine ⟨before.flatMap Prod.snd, nodes, after.flatMap Prod.snd, by simp, ?_, (tagged _ member).2, ?_, ?_, ?_⟩
    · exact blocks_untagged own before notBefore fun block inside => outside block (List.mem_append_left after inside)
    · exact blocks_untagged own after notAfter fun block inside => outside block (List.mem_append_right before inside)
    · exact fun none_ => absurd none_ (tagged _ member).1
    · exact fun others => blocked_around own before after others distinct outside
  · refine ⟨blocks.flatMap Prod.snd, [], [], by simp, blocks_untagged tag blocks present tagged, by simp [Tagged],
      by simp [Untagged], by simp, ?_⟩
    have apart : (blocks.map Prod.fst ++ [tag]).Nodup := by
      refine List.nodup_append.mpr ⟨distinct, by simp, ?_⟩
      rintro other inside same here rfl
      obtain rfl : other = tag := by simpa using here
      exact present inside
    intro others
    exact blocked_around tag blocks [] others apart (by simpa using tagged)

theorem kids_split (tag : Text) (front nodes back : List Ruv) (before : Untagged tag front) (tagged : Tagged tag nodes)
    (after : Untagged tag back) : kids tag (front ++ nodes ++ back) = nodes := by
  simp [kids_append, kids_untagged tag front before, kids_tagged tag nodes tagged, kids_untagged tag back after]

theorem kids_other_split (tag other : Text) (front nodes back : List Ruv) (tagged : Tagged tag nodes)
    (different : other ≠ tag) : kids other (front ++ nodes ++ back) = kids other front ++ kids other back := by
  simp [kids_append, kids_other tag other nodes tagged different]

-- What the second pass does to the nodes of one tag: a field writes its column
-- into the first of them, an entry is read into its counterpart, and what has
-- no counterpart is appended.
def markField (idx : Column) (pair : TagVal) : List Ruv → List Ruv
  | [] => [Ruv.newAt idx pair]
  | p :: rest => p.setVal idx pair.2 :: rest

def overlay (idx : Column) (counter : TagVal) : PairEntries → List Ruv → List Ruv
  | .nil, olds => olds
  | .cons entry more, [] => (Ruv.newAt idx counter).setChildren (readInto idx entry []) :: overlay idx counter more []
  | .cons entry more, p :: rest => p.setChildren (readInto idx entry p.children) :: overlay idx counter more rest

theorem set_field_split (idx : Column) (pair : TagVal) (front nodes back : List Ruv) (before : Untagged pair.1 front)
    (tagged : Tagged pair.1 nodes) (alone : nodes = [] → back = []) :
    setField idx pair (front ++ nodes ++ back) = front ++ markField idx pair nodes ++ back := by
  induction front with
  | nil =>
      cases nodes with
      | nil => simp [alone rfl, setField, markField]
      | cons p rest => simp [setField, markField, tagged p (by simp)]
  | cons p rest ih =>
      have different := before p (by simp)
      have later := ih fun q inside => before q (by simp [inside])
      simpa [setField, different] using later

theorem add_field_split (idx : Column) (pair : TagVal) (front nodes back children : List Ruv)
    (split : children = front ++ nodes ++ back) (before : Untagged pair.1 front) (tagged : Tagged pair.1 nodes)
    (alone : nodes = [] → back = []) (unseen : idx = 0 → nodes = [] ∧ back = []) :
    addField idx pair children = front ++ markField idx pair nodes ++ back := by
  by_cases firstPass : idx = 0
  · obtain ⟨rfl, rfl⟩ := unseen firstPass
    simp [addField, markField, firstPass, split, new_eq_new_at]
  · rw [addField, if_neg firstPass, split, set_field_split idx pair front nodes back before tagged alone]

theorem seek_front (tag : Text) (wanted : Nat) (front rest : List Ruv) (i ref : Nat) (before : Untagged tag front) :
    seekEntry tag wanted (front ++ rest) i ref 0 = seekEntry tag wanted rest (i + front.length) (ref + front.length) 0 := by
  induction front generalizing i ref with
  | nil => rfl
  | cons p tail ih =>
      have different := before p (by simp)
      simp only [List.cons_append, seekEntry, if_neg different, ne_eq, not_true_eq_false, if_false,
        ih (i + 1) (ref + 1) fun q inside => before q (by simp [inside]), List.length_cons]
      congr 1 <;> omega

theorem seek_past (tag : Text) (wanted : Nat) (nodes rest : List Ruv) (i ref count : Nat) (tagged : Tagged tag nodes)
    (few : count + nodes.length < wanted) :
    seekEntry tag wanted (nodes ++ rest) i ref count =
      seekEntry tag wanted rest (i + nodes.length) (ref + nodes.length) (count + nodes.length) := by
  induction nodes generalizing i ref count with
  | nil => rfl
  | cons p tail ih =>
      simp only [List.length_cons] at few
      have early : count + 1 ≠ wanted := by omega
      simp only [List.cons_append, seekEntry, if_pos (tagged p (by simp)), if_neg early,
        ih (i + 1) (ref + 1) (count + 1) (fun q inside => tagged q (by simp [inside])) (by omega), List.length_cons]
      congr 1 <;> omega

theorem seek_back (tag : Text) (wanted : Nat) (back : List Ruv) (i ref count : Nat) (after : Untagged tag back)
    (alone : count = 0 → back = []) : seekEntry tag wanted back i ref count = (none, ref) := by
  induction back generalizing i with
  | nil => rfl
  | cons p rest ih =>
      have different := after p (by simp)
      have counted : count ≠ 0 := fun zero => by simpa using alone zero
      simp only [seekEntry, if_neg different, if_pos counted, Nat.add_sub_cancel]
      exact ih (i + 1) (fun q inside => after q (by simp [inside])) fun zero => absurd zero counted

theorem modify_middle (front back : List Ruv) (p : Ruv) (change : Ruv → Ruv) :
    (front ++ p :: back).modify front.length change = front ++ change p :: back := by
  induction front with
  | nil => rfl
  | cons q rest ih => simpa using ih

theorem insert_middle (front back : List Ruv) (p : Ruv) : (front ++ back).insertIdx front.length p = front ++ p :: back := by
  induction front with
  | nil => rfl
  | cons q rest ih => simpa using ih

theorem children_at_middle (front back : List Ruv) (p : Ruv) : childrenAt front.length (front ++ p :: back) = p.children := by
  simp [childrenAt]

theorem entry_replaced (idx : Column) (counter : TagVal) (front rest : List Ruv) (p : Ruv) (entry : PairItems) (level : Level)
    (same : placed idx level counter = (front ++ p :: rest, front.length)) :
    (levelBuilder idx).leave level counter ((levelBuilder idx).items entry ((levelBuilder idx).enter level counter)) =
      ⟨front ++ p.setChildren (readInto idx entry p.children) :: rest,
        Function.update level.counting counter.1 (level.counting counter.1 + 1)⟩ := by
  simp only [levelBuilder, same, modify_middle, children_at_middle, Level.bump, readInto]

section Pass

variable (idx : Column) (counter : TagVal) (front back : List Ruv) (before : Untagged counter.1 front)
include before

theorem place_found (later : idx ≠ 0) (done rest : List Ruv) (p : Ruv) (tagged : Tagged counter.1 done)
    (own : p.tag = counter.1) :
    placeEntry idx counter (done.length + 1) (front ++ (done ++ p :: rest) ++ back) =
      (front ++ done ++ p :: (rest ++ back), (front ++ done).length) := by
  have found : (seekEntry counter.1 (done.length + 1) (front ++ (done ++ p :: (rest ++ back))) 0 0 0).1 =
      some (front ++ done).length := by
    rw [seek_front _ _ _ _ _ _ before, seek_past _ _ _ _ _ _ _ tagged (by omega)]
    simp [seekEntry, own]
  rw [placeEntry, if_neg later]
  simp only [List.append_assoc, List.cons_append] at found ⊢
  split <;> simp_all

theorem place_missing (done : List Ruv) (tagged : Tagged counter.1 done) (after : Untagged counter.1 back)
    (alone : done = [] → back = []) (first : idx = 0 → back = []) :
    placeEntry idx counter (done.length + 1) (front ++ done ++ back) =
      (front ++ done ++ Ruv.newAt idx counter :: back, (front ++ done).length) := by
  by_cases firstPass : idx = 0
  · rw [placeEntry, if_pos firstPass, first firstPass, new_eq_new_at, firstPass, List.append_nil]
  · have missing : seekEntry counter.1 (done.length + 1) (front ++ (done ++ back)) 0 0 0 = (none, (front ++ done).length) := by
      rw [seek_front _ _ _ _ _ _ before, seek_past _ _ _ _ _ _ _ tagged (by omega),
        seek_back _ _ _ _ _ _ after fun zero => alone (List.length_eq_zero_iff.mp (by omega))]
      simp
    rw [placeEntry, if_neg firstPass, List.append_assoc, missing]
    simp only
    rw [← List.append_assoc, insert_middle]

-- Entries pair up in order with the nodes of their counter that no entry of
-- this pass has used yet; the counter's count says how many it has used.
theorem entries_overlay (entries : PairEntries) (done olds : List Ruv) (counting : Text → Nat)
    (tagged : Tagged counter.1 done) (waiting : Tagged counter.1 olds) (after : Untagged counter.1 back)
    (alone : done ++ olds = [] → back = []) (first : idx = 0 → olds = [] ∧ back = [])
    (counted : counting counter.1 = done.length) :
    (levelBuilder idx).entries counter entries ⟨front ++ (done ++ olds) ++ back, counting⟩ =
      ⟨front ++ (done ++ overlay idx counter entries olds) ++ back,
        Function.update counting counter.1 (counting counter.1 + entries.count)⟩ := by
  match entries, olds with
  | .nil, olds => simp [Builder.entries, overlay, Entries.count]
  | .cons entry more, [] =>
      have place := place_missing idx counter front back before done tagged after (by simpa using alone) fun zero => (first zero).2
      have turn := entry_replaced idx counter (front ++ done) back (Ruv.newAt idx counter) entry
        ⟨front ++ (done ++ []) ++ back, counting⟩ (by simpa only [placed, counted, List.append_nil] using place)
      have rest := entries_overlay more (done ++ [(Ruv.newAt idx counter).setChildren (readInto idx entry [])]) []
        (Function.update counting counter.1 (counting counter.1 + 1))
        (by simpa [Tagged, or_imp, forall_and] using tagged) waiting after (by simp) first (by simp [counted])
      simp only [List.append_assoc, List.cons_append, List.nil_append, List.append_nil] at turn rest
      rw [Builder.entries, List.append_assoc, List.append_assoc, List.nil_append, turn]
      simp only [new_at_children, overlay, Entries.count, List.append_assoc, List.cons_append]
      rw [rest, Function.update_idem, Function.update_self, Nat.add_assoc, Nat.add_comm 1]
  | .cons entry more, p :: olds =>
      have later : idx ≠ 0 := fun zero => by simpa using (first zero).1
      have place := place_found idx counter front back before later done olds p tagged (waiting p (by simp))
      have turn := entry_replaced idx counter (front ++ done) (olds ++ back) p entry
        ⟨front ++ (done ++ p :: olds) ++ back, counting⟩ (by simpa only [placed, counted] using place)
      have rest := entries_overlay more (done ++ [p.setChildren (readInto idx entry p.children)]) olds
        (Function.update counting counter.1 (counting counter.1 + 1))
        (by simpa [Tagged, or_imp, forall_and, waiting p (by simp)] using tagged)
        (fun q inside => waiting q (by simp [inside])) after (by simp) (fun zero => absurd zero later) (by simp [counted])
      simp only [List.append_assoc, List.cons_append, List.nil_append] at turn rest
      rw [Builder.entries, List.append_assoc, List.append_assoc, List.cons_append, turn]
      simp only [overlay, Entries.count, List.append_assoc, List.cons_append]
      rw [rest, Function.update_idem, Function.update_self, Nat.add_assoc, Nat.add_comm 1]

end Pass

def kidsAfter (idx : Column) (tag : Text) : PairItems → List Ruv → List Ruv
  | .nil, olds => olds
  | .field own val more, olds => kidsAfter idx tag more (if own = tag then markField idx (own, val) olds else olds)
  | .group own val entries more, olds => kidsAfter idx tag more (if own = tag then overlay idx (own, val) entries olds else olds)

theorem mark_tagged (idx : Column) (pair : TagVal) (nodes : List Ruv) (tagged : Tagged pair.1 nodes) :
    Tagged pair.1 (markField idx pair nodes) := by
  cases nodes with
  | nil => simp [markField, Tagged]
  | cons p rest => simpa [markField, Tagged] using tagged

theorem mark_filled (idx : Column) (pair : TagVal) (nodes : List Ruv) : markField idx pair nodes ≠ [] := by
  cases nodes <;> simp [markField]

theorem overlay_tagged (idx : Column) (counter : TagVal) : ∀ (entries : PairEntries) (nodes : List Ruv),
    Tagged counter.1 nodes → Tagged counter.1 (overlay idx counter entries nodes)
  | .nil, _, tagged => tagged
  | .cons entry more, [], tagged => by
      have rest := overlay_tagged idx counter more [] tagged
      simpa [overlay, Tagged] using rest
  | .cons entry more, p :: nodes, tagged => by
      have rest := overlay_tagged idx counter more nodes fun q inside => tagged q (by simp [inside])
      simpa [overlay, Tagged, tagged p (by simp)] using rest

theorem overlay_filled (idx : Column) (counter : TagVal) (entries : PairEntries) (nodes : List Ruv)
    (empty : overlay idx counter entries nodes = []) : nodes = [] ∧ entries = .nil := by
  match entries, nodes with
  | .nil, nodes => exact ⟨by simpa [overlay] using empty, rfl⟩
  | .cons entry more, [] => simp [overlay] at empty
  | .cons entry more, p :: nodes => simp [overlay] at empty

def Replaces (own : Text) (change : List Ruv → List Ruv) (children after : List Ruv) : Prop :=
  Blocked after ∧ ∀ tag, kids tag after = if own = tag then change (kids tag children) else kids tag children

theorem split_unseen (idx : Column) (own : Text) (front nodes back : List Ruv) (before : Untagged own front)
    (tagged : Tagged own nodes) (after : Untagged own back) (alone : nodes = [] → back = [])
    (fresh : idx = 0 → kids own (front ++ nodes ++ back) = []) : idx = 0 → nodes = [] ∧ back = [] := by
  intro zero
  have empty : nodes = [] := by rw [← kids_split own front nodes back before tagged after, fresh zero]
  exact ⟨empty, alone empty⟩

theorem kids_replaced (own tag : Text) (front nodes back others : List Ruv) (before : Untagged own front)
    (tagged : Tagged own nodes) (after : Untagged own back) (othersTagged : Tagged own others) :
    kids tag (front ++ others ++ back) = if own = tag then others else kids tag (front ++ nodes ++ back) := by
  by_cases same : own = tag
  · rw [if_pos same, ← same, kids_split own front others back before othersTagged after]
  · rw [if_neg same, kids_other_split own tag front others back othersTagged (Ne.symm same),
      kids_other_split own tag front nodes back tagged (Ne.symm same)]

theorem field_turn (idx : Column) (pair : TagVal) (children : List Ruv) (blocked : Blocked children)
    (fresh : idx = 0 → kids pair.1 children = []) :
    Replaces pair.1 (markField idx pair) children (addField idx pair children) := by
  obtain ⟨front, nodes, back, split, before, tagged, after, alone, refill⟩ := blocked_split pair.1 children blocked
  have unseen := split_unseen idx pair.1 front nodes back before tagged after alone (split ▸ fresh)
  have markTagged := mark_tagged idx pair nodes tagged
  rw [add_field_split idx pair front nodes back children split before tagged alone unseen]
  refine ⟨refill _ (mark_filled idx pair nodes) markTagged, fun tag => ?_⟩
  rw [kids_replaced pair.1 tag front nodes back _ before tagged after markTagged, split]
  split_ifs with same
  · rw [← same, kids_split pair.1 front nodes back before tagged after]
  · rfl

theorem group_turn (idx : Column) (counter : TagVal) (entries : PairEntries) (level : Level) (blocked : Blocked level.children)
    (uncounted : level.counting counter.1 = 0) (fresh : idx = 0 → kids counter.1 level.children = []) :
    Replaces counter.1 (overlay idx counter entries) level.children
        ((levelBuilder idx).entries counter entries level).children ∧
      ((levelBuilder idx).entries counter entries level).counting =
        Function.update level.counting counter.1 entries.count := by
  obtain ⟨children, counting⟩ := level
  obtain ⟨front, nodes, back, split, before, tagged, after, alone, refill⟩ := blocked_split counter.1 children blocked
  simp only at split uncounted fresh
  have unseen := split_unseen idx counter.1 front nodes back before tagged after alone (split ▸ fresh)
  have overTagged := overlay_tagged idx counter entries nodes tagged
  have read := entries_overlay idx counter front back before entries [] nodes counting (by simp [Tagged]) tagged after
    (by simpa using alone) unseen uncounted
  simp only [List.nil_append, uncounted, Nat.zero_add, ← split] at read
  rw [read]
  refine ⟨⟨?_, fun tag => ?_⟩, rfl⟩
  · by_cases empty : overlay idx counter entries nodes = []
    · obtain ⟨rfl, rfl⟩ := overlay_filled idx counter entries nodes empty
      simpa [overlay, split] using blocked
    · exact refill _ empty overTagged
  · simp only
    rw [kids_replaced counter.1 tag front nodes back _ before tagged after overTagged, split]
    split_ifs with same
    · rw [← same, kids_split counter.1 front nodes back before tagged after]
    · rfl

theorem pass_kids (idx : Column) (items : PairItems) (level : Level) (distinct : items.tags.Nodup)
    (blocked : Blocked level.children) (uncounted : ∀ tag ∈ items.tags, level.counting tag = 0)
    (fresh : idx = 0 → ∀ tag ∈ items.tags, kids tag level.children = []) :
    Blocked ((levelBuilder idx).items items level).children ∧
      ∀ tag, kids tag ((levelBuilder idx).items items level).children = kidsAfter idx tag items (kids tag level.children) := by
  match items with
  | .nil => exact ⟨by simpa [Builder.items] using blocked, fun _ => by simp [Builder.items, kidsAfter]⟩
  | .field own val more =>
      obtain ⟨absent, distinct⟩ := field_distinct own val more distinct
      obtain ⟨turnBlocked, turnKids⟩ := field_turn idx (own, val) level.children blocked
        fun zero => fresh zero own (by simp [Items.tags])
      have rest := pass_kids idx more { level with children := addField idx (own, val) level.children } distinct turnBlocked
        (fun tag inside => uncounted tag (by simp [Items.tags, inside]))
        (fun zero tag inside => by
          have different : own ≠ tag := fun same => absent (same ▸ inside)
          simpa [turnKids, different] using fresh zero tag (by simp [Items.tags, inside]))
      exact ⟨rest.1, fun tag => by rw [Builder.items, kidsAfter, ← turnKids]; exact rest.2 tag⟩
  | .group own val entries more =>
      obtain ⟨absent, distinct⟩ := group_distinct own val entries more distinct
      obtain ⟨⟨turnBlocked, turnKids⟩, turnCounting⟩ := group_turn idx (own, val) entries level blocked
        (uncounted own (by simp [Items.tags])) fun zero => fresh zero own (by simp [Items.tags])
      have rest := pass_kids idx more ((levelBuilder idx).entries (own, val) entries level) distinct turnBlocked
        (fun tag inside => by
          have different : tag ≠ own := fun same => absent (same ▸ inside)
          rw [turnCounting, Function.update_of_ne different]
          exact uncounted tag (by simp [Items.tags, inside]))
        (fun zero tag inside => by
          have different : own ≠ tag := fun same => absent (same ▸ inside)
          simpa [turnKids, different] using fresh zero tag (by simp [Items.tags, inside]))
      exact ⟨rest.1, fun tag => by rw [Builder.items, kidsAfter, ← turnKids]; exact rest.2 tag⟩

end Libx.Viewer

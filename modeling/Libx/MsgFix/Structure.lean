import Libx.MsgFix.Laws

set_option autoImplicit false

namespace Libx.Trd

open Counted
open scoped List

def MsgFix.isTag : MsgFix → Bool
  | .node istag _ _ _ => istag
def MsgFix.inttag : MsgFix → Int32
  | .node _ inttag _ _ => inttag
def MsgFix.val : MsgFix → Text
  | .node _ _ val _ => val
def MsgFix.children : MsgFix → List MsgFix
  | .node _ _ _ children => children

mutual
def MsgFix.nodes : MsgFix → List MsgFix
  | .node istag inttag val children => .node istag inttag val children :: nodesOf children
def nodesOf : List MsgFix → List MsgFix
  | [] => []
  | p :: rest => p.nodes ++ nodesOf rest
end

def MadeBy (tokens : List (Token Int32 Text)) (counter : Int32) (val : Text) (block : List MsgFix) : Prop :=
  ∃ before entries after, tokens = before ++ (counter, val) :: (Entries.render entries ++ after) ∧ block = buildEntries counter val entries

def Together (tokens : List (Token Int32 Text)) (counter : Int32) (children : List MsgFix) : Prop :=
  ∃ val front block back, children = front ++ (block ++ back) ∧
    (∀ child ∈ front ++ back, child.isTag = false → child.inttag ≠ counter) ∧
    (∀ child ∈ block, child.isTag = false ∧ child.inttag = counter ∧ child.val = val) ∧
    (block ≠ [] → MadeBy tokens counter val block)

structure EntryChildren (tokens : List (Token Int32 Text)) (members : Finset Int32) (children : List MsgFix) : Prop where
  inside : ∀ child ∈ children, child.inttag ∈ members
  distinct : ((children.filter MsgFix.isTag).map MsgFix.inttag).Nodup
  together : ∀ counter, Together tokens counter children

structure NodeShape (tokens : List (Token Int32 Text)) (groups : Groups Int32) (node : MsgFix) : Prop where
  leaf : node.isTag = true → node.children = []
  group : node.isTag = false → ∃ members, groups node.inttag = some members ∧ EntryChildren tokens members node.children

theorem nodes_append (front back : List MsgFix) : nodesOf (front ++ back) = nodesOf front ++ nodesOf back := by
  induction front with
  | nil => simp [nodesOf]
  | cons p rest ih => simp [nodesOf, ih]

theorem entries_nodes (tag : Int32) (val : Text) (entries : FixEntries) (child : MsgFix)
    (member : child ∈ buildEntries tag val entries) : child.isTag = false ∧ child.inttag = tag ∧ child.val = val := by
  cases entries with
  | nil => simp [buildEntries] at member
  | cons entry more =>
      rw [buildEntries] at member
      cases List.mem_cons.mp member with
      | inl first => exact first ▸ ⟨rfl, rfl, rfl⟩
      | inr later => exact entries_nodes tag val more child later

theorem items_inside (items : FixItems) (child : MsgFix) (member : child ∈ buildItems items) : child.inttag ∈ items.tags := by
  cases items with
  | nil => simp [buildItems] at member
  | field tag val more =>
      rw [buildItems] at member
      rw [Items.tags]
      cases List.mem_cons.mp member with
      | inl first => exact first ▸ List.mem_cons_self
      | inr later => exact List.mem_cons_of_mem _ (items_inside more child later)
  | group tag val entries more =>
      rw [buildItems] at member
      rw [Items.tags]
      cases List.mem_append.mp member with
      | inl own => exact (entries_nodes tag val entries child own).2.1 ▸ List.mem_cons_self
      | inr later => exact List.mem_cons_of_mem _ (items_inside more child later)

theorem leaf_tags (items : FixItems) : ((buildItems items).filter MsgFix.isTag).map MsgFix.inttag <+ items.tags := by
  cases items with
  | nil => simp [buildItems, Items.tags]
  | field tag val more =>
      rw [buildItems, List.filter_cons_of_pos rfl, List.map_cons, Items.tags]
      exact (leaf_tags more).cons_cons tag
  | group tag val entries more =>
      have none_ : (buildEntries tag val entries).filter MsgFix.isTag = [] :=
        List.filter_eq_nil_iff.mpr fun child member => by simp [(entries_nodes tag val entries child member).1]
      rw [buildItems, List.filter_append, none_, List.nil_append, Items.tags]
      exact (leaf_tags more).cons tag

theorem together_behind (tokens : List (Token Int32 Text)) (counter : Int32) (first children : List MsgFix)
    (apart : ∀ child ∈ first, child.isTag = false → child.inttag ≠ counter) (rest : Together tokens counter children) :
    Together tokens counter (first ++ children) := by
  obtain ⟨val, front, block, back, rfl, others, same, made⟩ := rest
  refine ⟨val, first ++ front, block, back, (List.append_assoc _ _ _).symm, fun child member isGrp => ?_, same, made⟩
  rw [List.append_assoc] at member
  cases List.mem_append.mp member with
  | inl here => exact apart child here isGrp
  | inr later => exact others child later isGrp

theorem together_block (tokens : List (Token Int32 Text)) (counter : Int32) (val : Text) (entries : FixEntries) (more : FixItems)
    (placed : (counter, val) :: (entries.render ++ more.render) <:+: tokens) (fresh : counter ∉ more.tags) :
    Together tokens counter (buildEntries counter val entries ++ buildItems more) := by
  refine ⟨val, [], buildEntries counter val entries, buildItems more, rfl, ?_, entries_nodes counter val entries, fun _ => ?_⟩
  · rintro child member _ rfl
    exact fresh (items_inside more child member)
  · obtain ⟨before, after, whole⟩ := placed
    refine ⟨before, entries, more.render ++ after, ?_, rfl⟩
    rw [← whole]
    simp

theorem field_behind (tokens : List (Token Int32 Text)) (tag : Int32) (val : Text) (more : FixItems)
    (placed : (Items.field tag val more).render <:+: tokens) : more.render <:+: tokens := by
  rw [items_render_field] at placed
  exact (List.suffix_cons _ _).isInfix.trans placed

theorem group_parts (tokens : List (Token Int32 Text)) (tag : Int32) (val : Text) (entries : FixEntries) (more : FixItems)
    (placed : (tag, val) :: (entries.render ++ more.render) <:+: tokens) :
    entries.render <:+: tokens ∧ more.render <:+: tokens := by
  have behind := (List.suffix_cons _ _).isInfix.trans placed
  exact ⟨(List.prefix_append _ _).isInfix.trans behind, (List.suffix_append _ _).isInfix.trans behind⟩

-- Each tag of an entry is spent by one token, so the nodes of a counter stand in one piece.
theorem items_together (tokens : List (Token Int32 Text)) (items : FixItems) (placed : items.render <:+: tokens)
    (distinct : items.tags.Nodup) (counter : Int32) : Together tokens counter (buildItems items) := by
  cases items with
  | nil => exact ⟨[], [], [], [], by simp [buildItems], by simp, by simp, by simp⟩
  | field tag val more =>
      have behind := field_behind tokens tag val more placed
      have rest := items_together tokens more behind (field_distinct tag val more distinct).2 counter
      rw [buildItems]
      refine together_behind tokens counter [.node true tag val []] _ (fun child member isGrp => ?_) rest
      simp [List.mem_singleton.mp member, MsgFix.isTag] at isGrp
  | group tag val entries more =>
      obtain ⟨fresh, moreDistinct⟩ := group_distinct tag val entries more distinct
      rw [items_render_group] at placed
      rw [buildItems]
      by_cases own : tag = counter
      · subst own
        exact together_block tokens tag val entries more placed fresh
      · have behind := (group_parts tokens tag val entries more placed).2
        refine together_behind tokens counter _ _ (fun child member _ => ?_) (items_together tokens more behind moreDistinct counter)
        exact (entries_nodes tag val entries child member).2.1 ▸ own

theorem entry_children (tokens : List (Token Int32 Text)) (members : Finset Int32) (entry : FixItems)
    (placed : entry.render <:+: tokens) (distinct : entry.tags.Nodup) (inside : ∀ tag ∈ entry.tags, tag ∈ members) :
    EntryChildren tokens members (buildItems entry) where
  inside child member := inside child.inttag (items_inside entry child member)
  distinct := distinct.sublist (leaf_tags entry)
  together := items_together tokens entry placed distinct

mutual
theorem nodes_shaped (groups : Groups Int32) (tokens : List (Token Int32 Text)) (items : FixItems)
    (placed : items.render <:+: tokens) (shaped : items.Shaped groups) :
    ∀ node ∈ nodesOf (buildItems items), NodeShape tokens groups node := by
  cases items with
  | nil => simp [buildItems, nodesOf]
  | field tag val more =>
      have behind := field_behind tokens tag val more placed
      intro node member
      rw [buildItems, nodesOf, MsgFix.nodes, nodesOf, List.singleton_append] at member
      cases List.mem_cons.mp member with
      | inl first => exact first ▸ ⟨fun _ => rfl, fun isGrp => by simp [MsgFix.isTag] at isGrp⟩
      | inr later => exact nodes_shaped groups tokens more behind shaped.2 node later
  | group tag val entries more =>
      obtain ⟨⟨members, kind, entriesShaped⟩, moreShaped⟩ := shaped
      rw [items_render_group] at placed
      obtain ⟨within, behind⟩ := group_parts tokens tag val entries more placed
      intro node member
      rw [buildItems, nodes_append] at member
      cases List.mem_append.mp member with
      | inl here => exact entry_nodes_shaped groups tokens tag val members entries kind within entriesShaped node here
      | inr later => exact nodes_shaped groups tokens more behind moreShaped node later
theorem entry_nodes_shaped (groups : Groups Int32) (tokens : List (Token Int32 Text)) (tag : Int32) (val : Text)
    (members : Finset Int32) (entries : FixEntries) (kind : groups tag = some members) (placed : entries.render <:+: tokens)
    (shaped : entries.Shaped groups members) : ∀ node ∈ nodesOf (buildEntries tag val entries), NodeShape tokens groups node := by
  cases entries with
  | nil => simp [buildEntries, nodesOf]
  | cons entry more =>
      obtain ⟨_, distinct, inside, entryShaped, moreShaped⟩ := shaped
      rw [entries_render_cons] at placed
      have within : entry.render <:+: tokens := (List.prefix_append _ _).isInfix.trans placed
      have behind : more.render <:+: tokens := (List.suffix_append _ _).isInfix.trans placed
      intro node member
      rw [buildEntries, nodesOf, MsgFix.nodes, List.cons_append] at member
      cases List.mem_cons.mp member with
      | inl first =>
          rw [first]
          exact ⟨fun isTag => by simp [MsgFix.isTag] at isTag,
            fun _ => ⟨members, kind, entry_children tokens members entry within distinct inside⟩⟩
      | inr later =>
          cases List.mem_append.mp later with
          | inl inEntry => exact nodes_shaped groups tokens entry within entryShaped node inEntry
          | inr inMore => exact entry_nodes_shaped groups tokens tag val members more kind behind moreShaped node inMore
end

theorem rmake_nodes_shaped (groups : Groups Int32) (rfixtokens : List Text) (integers : IntegerTags rfixtokens)
    (last : LastNotCounter groups rfixtokens) :
    ∃ children, msgFixRmakeRoot rfixtokens groups = .ok (children, rfixtokens.length) ∧
      ∀ node ∈ nodesOf children, NodeShape (pairsOf rfixtokens) groups node := by
  obtain ⟨items, render, parsed, made⟩ := root_items groups rfixtokens integers last
  refine ⟨buildItems items, made, ?_⟩
  rw [render]
  exact nodes_shaped groups items.render items List.infix_rfl (parsed_shaped groups none items [] parsed)

theorem rmake_nodes_shaped_nested :
    let tokens := ["453=1".toList, "448=A".toList, "802=2".toList, "523=x".toList, "523=y".toList, "10=001".toList]
    let field (tag : Int32) (val : String) : MsgFix := .node true tag val.toList []
    let children : List MsgFix := [.node false 453 "1".toList [field 448 "A", .node false 802 "2".toList [field 523 "x"],
      .node false 802 "2".toList [field 523 "y"]], field 10 "001"]
    let pairs : List (Token Int32 Text) :=
      [(453, "1".toList), (448, "A".toList), (802, "2".toList), (523, "x".toList), (523, "y".toList), (10, "001".toList)]
    msgFixRmakeRoot tokens getFix42RepeatingGroups = .ok (children, 6) ∧
      ∀ node ∈ nodesOf children, NodeShape pairs getFix42RepeatingGroups node := by
  intro tokens field children pairs
  have integers : IntegerTags tokens := integer_tags_checked tokens rfl
  have last : LastNotCounter getFix42RepeatingGroups tokens :=
    last_not_counter_at getFix42RepeatingGroups tokens "10=001".toList (10, "001".toList) rfl rfl rfl
  have made : msgFixRmakeRoot tokens getFix42RepeatingGroups = .ok (children, 6) := rfl
  obtain ⟨children', run, shaped⟩ := rmake_nodes_shaped getFix42RepeatingGroups tokens integers last
  obtain rfl : children = children' := congrArg Prod.fst (Except.ok.inj (made.symm.trans run))
  have read : pairsOf tokens = pairs := rfl
  rw [read] at shaped
  exact ⟨made, shaped⟩

end Libx.Trd

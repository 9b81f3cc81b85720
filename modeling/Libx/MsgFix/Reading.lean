import Libx.MsgFix.Model
import Libx.Lib.CountedReader

set_option autoImplicit false

namespace Libx.Trd

open Counted

abbrev FixItems := Items Int32 Text
abbrev FixEntries := Entries Int32 Text

def TagVal.token (pair : TagVal) : Token Int32 Text := (pair.firstAsInt, pair.second)

def fixSource (rfixtokens : List Text) : Source Int32 Text Fault where
  size := rfixtokens.length
  token pos := (readToken rfixtokens pos).map TagVal.token
  fuel := .fuel

def fixBuilder : Builder Int32 Text (List MsgFix) where
  field nodes token := nodes ++ [.node true token.1 token.2 []]
  enter _ _ := []
  leave nodes counter children := nodes ++ [.node false counter.1 counter.2 children]

@[simp] theorem fix_field (nodes : List MsgFix) (tag : Int32) (val : Text) :
    fixBuilder.field nodes (tag, val) = nodes ++ [.node true tag val []] := rfl
@[simp] theorem fix_enter (nodes : List MsgFix) (counter : Token Int32 Text) : fixBuilder.enter nodes counter = [] := rfl
@[simp] theorem fix_leave (nodes children : List MsgFix) (counter : Token Int32 Text) :
    fixBuilder.leave nodes counter children = nodes ++ [.node false counter.1 counter.2 children] := rfl

@[simp] theorem fix_source_size (rfixtokens : List Text) : (fixSource rfixtokens).size = rfixtokens.length := rfl
@[simp] theorem fix_source_token (rfixtokens : List Text) (pos : Nat) :
    (fixSource rfixtokens).token pos = (readToken rfixtokens pos).map TagVal.token := rfl

theorem next_pair_refreshes (rfixtokens : List Text) (pos : Nat) (npair : TagVal) :
    (fixSource rfixtokens).refresh pos npair.token = (nextPair rfixtokens pos npair).map TagVal.token := by
  by_cases bound : pos < rfixtokens.length <;> simp [Source.refresh, nextPair, bound]

section Turns

variable (rfixtokens : List Text) (groups : Groups Int32) (keeps : List MsgFix → Nat → Prop)
  (field : ∀ (rMsgFix : List MsgFix) (inc : Nat) (pair : TagVal), inc < rfixtokens.length → readToken rfixtokens inc = .ok pair →
    keeps rMsgFix inc → keeps (rMsgFix ++ [.node true pair.firstAsInt pair.second []]) (inc + 1))
  (counter : ∀ (rMsgFix : List MsgFix) (inc : Nat), inc < rfixtokens.length → keeps rMsgFix inc → keeps rMsgFix (inc + 1))
  (opened : ∀ (rMsgFix : List MsgFix) (pos : Nat), keeps rMsgFix pos → keeps [] pos)
  (entry : ∀ (pair : TagVal) (rMsgFix children : List MsgFix) (pos inc : Nat), keeps rMsgFix pos → keeps children inc →
    keeps (rMsgFix ++ [.node false pair.firstAsInt pair.second children]) inc)

include field counter opened entry

-- What every turn keeps of the children and the position, both loops keep.
theorem rmake_keeps (fuel : Nat) :
    (∀ (rMsgFix : List MsgFix) (inc : Nat) (pRptGroup : Option (Finset Int32)) (made : List MsgFix × Nat), keeps rMsgFix inc →
      msgFixRmake rfixtokens groups fuel rMsgFix inc pRptGroup = .ok made → keeps made.1 made.2) ∧
    (∀ (pair : TagVal) (rRptTags : Finset Int32) (rMsgFix : List MsgFix) (pos : Nat) (npair : TagVal) (made : List MsgFix × Nat),
      keeps rMsgFix pos → msgFixEntries rfixtokens groups pair rRptTags fuel rMsgFix pos npair = .ok made →
      keeps made.1 made.2) := by
  induction fuel with
  | zero =>
      refine ⟨fun rMsgFix inc pRptGroup made before run => ?_, fun pair rRptTags rMsgFix pos npair made before run => ?_⟩
      · simp [msgFixRmake] at run
      · simp [msgFixEntries] at run
  | succ fuel ih =>
      obtain ⟨ihItems, ihEntries⟩ := ih
      refine ⟨fun rMsgFix inc pRptGroup made before run => ?_, fun pair rRptTags rMsgFix pos npair made before run => ?_⟩
      · rw [msgFixRmake] at run
        by_cases bound : inc < rfixtokens.length
        · rw [if_pos bound] at run
          obtain ⟨pair, read, run⟩ := (Fallible.bind_ok_iff _ _ _).mp run
          by_cases blocked : pRptGroup.any (pair.firstAsInt ∉ ·) = true
          · rw [if_pos blocked] at run
            obtain rfl : (rMsgFix, inc) = made := Except.ok.inj run
            exact before
          · rw [if_neg blocked] at run
            cases kind : groups pair.firstAsInt with
            | none =>
                simp only [kind] at run
                exact ihItems _ _ _ made (field rMsgFix inc pair bound read before) run
            | some rRptTags =>
                simp only [kind] at run
                obtain ⟨npair, _, run⟩ := (Fallible.bind_ok_iff _ _ _).mp run
                have passed := counter rMsgFix inc bound before
                by_cases foreign : ¬(inc + 1 < rfixtokens.length ∧ npair.firstAsInt ∈ rRptTags)
                · rw [if_pos foreign] at run
                  exact ihItems _ _ _ made passed run
                · rw [if_neg foreign] at run
                  obtain ⟨between, entries, run⟩ := (Fallible.bind_ok_iff _ _ _).mp run
                  exact ihItems _ _ _ made (ihEntries _ _ _ _ _ between passed entries) run
        · rw [if_neg bound] at run
          obtain rfl : (rMsgFix, inc) = made := Except.ok.inj run
          exact before
      · rw [msgFixEntries] at run
        by_cases inside : pos < rfixtokens.length ∧ npair.firstAsInt ∈ rRptTags
        · rw [if_pos inside] at run
          obtain ⟨inner, items, run⟩ := (Fallible.bind_ok_iff _ _ _).mp run
          obtain ⟨next, _, run⟩ := (Fallible.bind_ok_iff _ _ _).mp run
          have closed := ihItems _ _ _ inner (opened rMsgFix pos before) items
          exact ihEntries _ _ _ _ _ made (entry pair rMsgFix inner.1 pos inner.2 before closed) run
        · rw [if_neg inside] at run
          obtain rfl : (rMsgFix, pos) = made := Except.ok.inj run
          exact before

end Turns

-- The source function is the counted-group reader over the strings' tags and
-- values; induction on the fuel, both loops together.
theorem rmake_reads (rfixtokens : List Text) (groups : Groups Int32) (fuel : Nat) :
    (∀ (rMsgFix : List MsgFix) (inc : Nat) (pRptGroup : Option (Finset Int32)),
      msgFixRmake rfixtokens groups fuel rMsgFix inc pRptGroup =
        readItems (fixSource rfixtokens) fixBuilder groups fuel rMsgFix inc pRptGroup) ∧
    (∀ (pair : TagVal) (rRptTags : Finset Int32) (rMsgFix : List MsgFix) (pos : Nat) (npair : TagVal),
      msgFixEntries rfixtokens groups pair rRptTags fuel rMsgFix pos npair =
        readEntries (fixSource rfixtokens) fixBuilder groups pair.token rRptTags fuel rMsgFix pos npair.token) := by
  induction fuel with
  | zero => exact ⟨fun _ _ _ => rfl, fun _ _ _ _ _ => rfl⟩
  | succ fuel ih =>
      obtain ⟨ihItems, ihEntries⟩ := ih
      constructor
      · intro rMsgFix inc pRptGroup
        rw [msgFixRmake, readItems, fix_source_size, fix_source_token]
        by_cases bound : inc < rfixtokens.length
        · rw [if_pos bound, if_pos bound]
          cases readToken rfixtokens inc with
          | error fault => rw [Fallible.error_map, Fallible.error_bind, Fallible.error_bind]
          | ok pair =>
              simp only [Fallible.ok_map, Fallible.ok_bind, TagVal.token]
              by_cases blocked : pRptGroup.any (pair.firstAsInt ∉ ·) = true
              · rw [if_pos blocked, if_pos blocked]
              · rw [if_neg blocked, if_neg blocked]
                cases groups pair.firstAsInt with
                | none => simp only [ihItems, fix_field, consume]
                | some rRptTags =>
                    rw [fix_source_token]
                    cases readToken rfixtokens (inc + 1) with
                    | error fault => simp only [Fallible.error_map, Fallible.error_bind]
                    | ok npair =>
                        simp only [Fallible.ok_map, Fallible.ok_bind, ite_not, ihItems, ihEntries, TagVal.token, consume]
        · rw [if_neg bound, if_neg bound]
      · intro pair rRptTags rMsgFix pos npair
        rw [msgFixEntries, readEntries, fix_source_size, show npair.token.1 = npair.firstAsInt from rfl]
        by_cases inside : pos < rfixtokens.length ∧ npair.firstAsInt ∈ rRptTags
        · rw [if_pos inside, if_pos inside, ihItems, fix_enter]
          cases readItems (fixSource rfixtokens) fixBuilder groups fuel [] pos (some rRptTags) with
          | error fault => rw [Fallible.error_bind, Fallible.error_bind]
          | ok made =>
              simp only [Fallible.ok_bind, next_pair_refreshes]
              cases nextPair rfixtokens made.2 npair with
              | error fault => rw [Fallible.error_map, Fallible.error_bind, Fallible.error_bind]
              | ok next => simp only [Fallible.ok_map, Fallible.ok_bind, ihEntries, fix_leave, TagVal.token]
        · rw [if_neg inside, if_neg inside]

mutual
def buildItems : FixItems → List MsgFix
  | .nil => []
  | .field tag val more => .node true tag val [] :: buildItems more
  | .group tag val entries more => buildEntries tag val entries ++ buildItems more
def buildEntries (tag : Int32) (val : Text) : FixEntries → List MsgFix
  | .nil => []
  | .cons entry more => .node false tag val (buildItems entry) :: buildEntries tag val more
end

mutual
theorem builder_items (items : FixItems) (nodes : List MsgFix) :
    fixBuilder.items items nodes = nodes ++ buildItems items := by
  cases items with
  | nil => simp [Builder.items, buildItems]
  | field tag val more => simp [Builder.items, buildItems, builder_items more]
  | group tag val entries more => simp [Builder.items, buildItems, builder_items more, builder_entries (tag, val) entries]
theorem builder_entries (counter : Token Int32 Text) (entries : FixEntries) (nodes : List MsgFix) :
    fixBuilder.entries counter entries nodes = nodes ++ buildEntries counter.1 counter.2 entries := by
  cases entries with
  | nil => simp [Builder.entries, buildEntries]
  | cons entry more =>
      rw [Builder.entries, builder_items entry, builder_entries counter more]
      simp [buildEntries]
end

end Libx.Trd

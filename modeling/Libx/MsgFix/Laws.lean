import Libx.MsgFix.Tokens

set_option autoImplicit false

namespace Libx.Trd

open Counted

def IntegerTags (rfixtokens : List Text) : Prop := ∀ token ∈ rfixtokens, ∃ pair, extractTagVal token = .ok pair

def tokenPair (token : Text) : Option (Token Int32 Text) :=
  match extractTagVal token with
  | .ok pair => some (pair.firstAsInt, pair.second)
  | .error _ => none

def pairsOf (rfixtokens : List Text) : List (Token Int32 Text) := rfixtokens.filterMap tokenPair

def LastNotCounter (groups : Groups Int32) (rfixtokens : List Text) : Prop :=
  ∀ token ∈ rfixtokens.getLast?, ∀ pair ∈ tokenPair token, groups pair.1 = none

theorem integer_pair (token : Text) (integer : ∃ pair, extractTagVal token = .ok pair) :
    ∃ pair, tokenPair token = some pair ∧ extractTagVal token = .ok ⟨pair.1, pair.2⟩ := by
  obtain ⟨pair, read⟩ := integer
  exact ⟨(pair.firstAsInt, pair.second), by simp [tokenPair, read], read⟩

theorem integer_tags_checked (rfixtokens : List Text) (checked : rfixtokens.all (fun token => (tokenPair token).isSome) = true) :
    IntegerTags rfixtokens := by
  intro token member
  have some_ := List.all_eq_true.mp checked token member
  cases read : extractTagVal token with
  | error fault => simp [tokenPair, read] at some_
  | ok pair => exact ⟨pair, rfl⟩

theorem last_not_counter_at (groups : Groups Int32) (rfixtokens : List Text) (token : Text) (pair : Token Int32 Text)
    (last : rfixtokens.getLast? = some token) (read : tokenPair token = some pair) (plain : groups pair.1 = none) :
    LastNotCounter groups rfixtokens := by
  intro other isLast otherPair isPair
  obtain rfl : token = other := by simpa [last] using isLast
  obtain rfl : pair = otherPair := by simpa [read] using isPair
  exact plain

theorem read_token_pair (rfixtokens : List Text) (pos : Nat) (pair : Token Int32 Text) (token : Text)
    (here : rfixtokens[pos]? = some token) (read : extractTagVal token = .ok ⟨pair.1, pair.2⟩) :
    (fixSource rfixtokens).token pos = .ok pair := by
  simp [fixSource, readToken, here, read, TagVal.token]

theorem extracted_ahead (rfixtokens : List Text) (pos : Nat) (pairs : List (Token Int32 Text))
    (extracted : (rfixtokens.drop pos).map extractTagVal = pairs.map fun pair => .ok ⟨pair.1, pair.2⟩)
    (within : pos ≤ rfixtokens.length) : Ahead (fixSource rfixtokens) pos pairs := by
  induction pairs generalizing pos with
  | nil =>
      have empty : rfixtokens.drop pos = [] := by simpa using extracted
      have behind := List.drop_eq_nil_iff.mp empty
      show pos = rfixtokens.length
      omega
  | cons pair tail ih =>
      have bound : pos < rfixtokens.length := by
        have lengths := congrArg List.length extracted
        simp only [List.length_map, List.length_drop, List.length_cons] at lengths
        omega
      simp only [List.drop_eq_getElem_cons bound, List.map_cons, List.cons.injEq] at extracted
      exact ⟨bound, read_token_pair rfixtokens pos pair _ (List.getElem?_eq_getElem bound) extracted.1,
        ih (pos + 1) extracted.2 bound⟩

theorem integer_pairs (rfixtokens : List Text) (integers : IntegerTags rfixtokens) :
    rfixtokens.map extractTagVal = (pairsOf rfixtokens).map fun pair => .ok ⟨pair.1, pair.2⟩ := by
  induction rfixtokens with
  | nil => rfl
  | cons token tail ih =>
      obtain ⟨pair, kept, read⟩ := integer_pair token (integers token (by simp))
      have later := ih fun other member => integers other (by simp [member])
      simp only [pairsOf, List.filterMap_cons, kept, List.map_cons, read]
      exact congrArg _ later

theorem integer_ahead (rfixtokens : List Text) (integers : IntegerTags rfixtokens) :
    Ahead (fixSource rfixtokens) 0 (pairsOf rfixtokens) :=
  extracted_ahead rfixtokens 0 _ (by simpa using integer_pairs rfixtokens integers) (Nat.zero_le _)

theorem pairs_last (rfixtokens : List Text) (integers : IntegerTags rfixtokens) :
    (pairsOf rfixtokens).getLast? = rfixtokens.getLast?.bind tokenPair := by
  induction rfixtokens with
  | nil => rfl
  | cons token tail ih =>
      obtain ⟨pair, kept, _⟩ := integer_pair token (integers token (by simp))
      have later := ih fun other member => integers other (by simp [member])
      simp only [pairsOf, List.filterMap_cons, kept, List.getLast?_cons, Option.bind_some] at later ⊢
      rw [later]
      cases last : tail.getLast? with
      | none => simp [kept]
      | some other =>
          obtain ⟨otherPair, otherKept, _⟩ := integer_pair other (integers other (by
            simp [List.mem_of_getLast? last]))
          simp [otherKept]

theorem last_not_counter_iff (groups : Groups Int32) (rfixtokens : List Text) (integers : IntegerTags rfixtokens) :
    LastNotCounter groups rfixtokens ↔ LastPlain groups (pairsOf rfixtokens) := by
  rw [LastPlain, LastNotCounter, pairs_last rfixtokens integers]
  cases rfixtokens.getLast? <;> simp

theorem pairs_length (rfixtokens : List Text) (integers : IntegerTags rfixtokens) :
    (pairsOf rfixtokens).length = rfixtokens.length := by
  simpa using (congrArg List.length (integer_pairs rfixtokens integers)).symm

theorem root_parsed (groups : Groups Int32) (rfixtokens : List Text) (items : FixItems)
    (extracted : rfixtokens.map extractTagVal = items.render.map fun pair => .ok ⟨pair.1, pair.2⟩)
    (parsed : items.Parsed groups none []) :
    msgFixRmakeRoot rfixtokens groups = .ok (buildItems items, rfixtokens.length) := by
  have length : rfixtokens.length = items.render.length := by simpa using congrArg List.length extracted
  have ahead : Ahead (fixSource rfixtokens) 0 (items.render ++ []) := by
    simpa using extracted_ahead rfixtokens 0 items.render (by simpa using extracted) (Nat.zero_le _)
  rw [msgFixRmakeRoot, (rmake_reads rfixtokens groups _).1,
    read_parsed (fixSource rfixtokens) fixBuilder groups _ [] 0 none items [] parsed ahead (by simp [enoughFuel, length]),
    builder_items]
  simp [length]

theorem root_items (groups : Groups Int32) (rfixtokens : List Text) (integers : IntegerTags rfixtokens)
    (last : LastNotCounter groups rfixtokens) :
    ∃ items : FixItems, pairsOf rfixtokens = items.render ∧ items.Parsed groups none [] ∧
      msgFixRmakeRoot rfixtokens groups = .ok (buildItems items, rfixtokens.length) := by
  obtain ⟨items, render, parsed⟩ := exists_parsed groups _ ((last_not_counter_iff groups rfixtokens integers).mp last)
  have extracted := integer_pairs rfixtokens integers
  rw [render] at extracted
  exact ⟨items, render, parsed, root_parsed groups rfixtokens items extracted parsed⟩

mutual
def MsgFix.leaves : MsgFix → List (Int32 × Text)
  | .node istag inttag val children => (if istag then [(inttag, val)] else []) ++ leavesOf children
def leavesOf : List MsgFix → List (Int32 × Text)
  | [] => []
  | p :: rest => p.leaves ++ leavesOf rest
end

theorem leaves_append (front back : List MsgFix) : leavesOf (front ++ back) = leavesOf front ++ leavesOf back := by
  induction front with
  | nil => simp [leavesOf]
  | cons p rest ih => simp [leavesOf, ih]

mutual
theorem build_leaves (items : FixItems) : leavesOf (buildItems items) = items.fields := by
  cases items with
  | nil => simp [buildItems, leavesOf, Items.fields]
  | field tag val more => simp [buildItems, leavesOf, MsgFix.leaves, Items.fields, build_leaves more]
  | group tag val entries more =>
      simp [buildItems, leaves_append, Items.fields, build_entries_leaves tag val entries, build_leaves more]
theorem build_entries_leaves (tag : Int32) (val : Text) (entries : FixEntries) :
    leavesOf (buildEntries tag val entries) = entries.fields := by
  cases entries with
  | nil => simp [buildEntries, leavesOf, Entries.fields]
  | cons entry more =>
      simp [buildEntries, leavesOf, MsgFix.leaves, Entries.fields, build_leaves entry, build_entries_leaves tag val more]
end

section Spelled

variable (rfixtokens : List Text) (pairs : List (Token Int32 Text)) (spelled : List.Forall₂ Spells rfixtokens pairs)

include spelled

theorem spelled_integers : IntegerTags rfixtokens := by
  induction spelled with
  | nil => exact fun _ absent => absurd absent List.not_mem_nil
  | cons head _ ih =>
      intro token member
      cases List.mem_cons.mp member with
      | inl own => exact ⟨_, own ▸ extract_spelled _ _ head⟩
      | inr later => exact ih token later

theorem spelled_pairs : pairsOf rfixtokens = pairs := by
  induction spelled with
  | nil => rfl
  | cons head _ ih =>
      have kept : ∀ (token : Text) (pair : Token Int32 Text), Spells token pair → tokenPair token = some pair := by
        intro token pair own
        rw [tokenPair, extract_spelled token pair own]
      rw [pairsOf, List.filterMap_cons, kept _ _ head]
      exact congrArg _ ih

end Spelled

theorem rmake_keeps_fields (groups : Groups Int32) (rfixtokens : List Text) (pairs : List (Token Int32 Text))
    (spelled : List.Forall₂ Spells rfixtokens pairs) (last : ∀ pair, pairs.getLast? = some pair → groups pair.1 = none) :
    ∃ children, msgFixRmakeRoot rfixtokens groups = .ok (children, rfixtokens.length) ∧
      leavesOf children = pairs.filter fun pair => (groups pair.1).isNone := by
  have integers := spelled_integers rfixtokens pairs spelled
  have read := spelled_pairs rfixtokens pairs spelled
  have plain : LastNotCounter groups rfixtokens := by
    rw [last_not_counter_iff groups rfixtokens integers, read]
    exact last
  obtain ⟨items, render, parsed, made⟩ := root_items groups rfixtokens integers plain
  refine ⟨buildItems items, made, ?_⟩
  rw [build_leaves, ← read, render]
  exact items_fields_filter groups none items [] parsed

theorem rmake_keeps_fields_parties :
    ∃ children, msgFixRmakeRoot ["35=D".toList, "453=2".toList, "448=A".toList, "448=B".toList, "10=001".toList]
        getFix42RepeatingGroups = .ok (children, 5) ∧
      leavesOf children = [(35, ['D']), (448, ['A']), (448, ['B']), (10, ['0', '0', '1'])] := by
  have spelled (token : Text) (pair : TagVal) (read : extractTagVal token = .ok pair) : Spells token (pair.firstAsInt, pair.second) :=
    (spells_iff token (pair.firstAsInt, pair.second)).mp read
  exact rmake_keeps_fields getFix42RepeatingGroups
    ["35=D".toList, "453=2".toList, "448=A".toList, "448=B".toList, "10=001".toList]
    [(35, ['D']), (453, ['2']), (448, ['A']), (448, ['B']), (10, ['0', '0', '1'])]
    (.cons (spelled _ ⟨35, ['D']⟩ rfl) (.cons (spelled _ ⟨453, ['2']⟩ rfl) (.cons (spelled _ ⟨448, ['A']⟩ rfl)
      (.cons (spelled _ ⟨448, ['B']⟩ rfl) (.cons (spelled _ ⟨10, ['0', '0', '1']⟩ rfl) .nil))))) (by decide)

theorem rmake_reads_in_range_iff (groups : Groups Int32) (rfixtokens : List Text) (integers : IntegerTags rfixtokens) :
    (∀ index, msgFixRmakeRoot rfixtokens groups ≠ .error (.outOfRange index)) ↔ LastNotCounter groups rfixtokens := by
  constructor
  · intro inRange
    rw [last_not_counter_iff groups rfixtokens integers]
    by_contra counter
    have behind : (fixSource rfixtokens).token rfixtokens.length = .error (.outOfRange rfixtokens.length) := by
      simp [fixSource, readToken]
    apply inRange rfixtokens.length
    rw [msgFixRmakeRoot, (rmake_reads rfixtokens groups _).1]
    exact read_behind_end _ fixBuilder groups _ behind _ counter _ [] (integer_ahead rfixtokens integers)
      (by simp [enoughFuel, pairs_length rfixtokens integers])
  · intro last index
    obtain ⟨items, _, _, made⟩ := root_items groups rfixtokens integers last
    simp [made]

theorem rmake_reads_in_range_iff_text :
    let tokens := ["33=1".toList, "58=hello".toList]
    (∀ index, msgFixRmakeRoot tokens getFix42RepeatingGroups ≠ .error (.outOfRange index)) ↔
      LastNotCounter getFix42RepeatingGroups tokens := by
  intro tokens
  exact rmake_reads_in_range_iff getFix42RepeatingGroups tokens (integer_tags_checked tokens rfl)

theorem rmake_reads_behind_counter :
    IntegerTags ["33=1".toList] ∧
      msgFixRmakeRoot ["33=1".toList] getFix42RepeatingGroups = .error (.outOfRange ["33=1".toList].length) := by
  exact ⟨integer_tags_checked ["33=1".toList] rfl, rfl⟩

end Libx.Trd

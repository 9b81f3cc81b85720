import Libx.MsgFix.Laws

set_option autoImplicit false

namespace Libx.Trd

open Counted

theorem last_plain_from (groups : Groups Int32) (rfixtokens : List Text) (integers : IntegerTags rfixtokens)
    (last : LastNotCounter groups rfixtokens) (inc : Nat) : LastPlain groups ((pairsOf rfixtokens).drop inc) := by
  have plain := (last_not_counter_iff groups rfixtokens integers).mp last
  exact last_plain_behind groups ((pairsOf rfixtokens).take inc) _ (by simpa using plain)

theorem integer_ahead_at (rfixtokens : List Text) (integers : IntegerTags rfixtokens) (inc : Nat)
    (within : inc ≤ rfixtokens.length) : Ahead (fixSource rfixtokens) inc ((pairsOf rfixtokens).drop inc) :=
  ahead_drop _ _ inc (integer_ahead rfixtokens integers) (by rwa [pairs_length rfixtokens integers])

theorem read_within (rfixtokens : List Text) (inc : Nat) (pair : TagVal) (read : readToken rfixtokens inc = .ok pair) :
    inc < rfixtokens.length := by
  by_contra behind
  have none_ : rfixtokens[inc]? = none := List.getElem?_eq_none (by omega)
  simp [readToken, none_] at read

theorem head_read (rfixtokens : List Text) (inc : Nat) (pair : TagVal) (tokens : List (Token Int32 Text))
    (ahead : Ahead (fixSource rfixtokens) inc tokens) (read : readToken rfixtokens inc = .ok pair) :
    ∃ tail, tokens = pair.token :: tail := by
  cases tokens with
  | nil =>
      have finished : inc = rfixtokens.length := ahead
      have bound := read_within rfixtokens inc pair read
      omega
  | cons token tail =>
      have here : (fixSource rfixtokens).token inc = .ok token := ahead.2.1
      rw [fix_source_token, read] at here
      exact ⟨tail, by rw [Except.ok.inj here]⟩

theorem next_pair_looks (rfixtokens : List Text) (pos : Nat) (npair : TagVal) (tokens : List (Token Int32 Text))
    (ahead : Ahead (fixSource rfixtokens) pos tokens)
    (current : pos < rfixtokens.length → readToken rfixtokens pos = .ok npair) : LooksAt npair.token tokens := by
  intro token first
  cases tokens with
  | nil => simp at first
  | cons head tail =>
      obtain ⟨others, shape⟩ := head_read rfixtokens pos npair _ ahead (current ahead.1)
      rw [shape] at first
      simpa using first

-- The first half is about the function, the second about its inner while, which
-- starts a new entry at pos as long as npair, the pair at pos, is one of the group.
-- A turn of that while is a call of the first half with the group's tags as the
-- set and the pair at pos among them: it comes back behind pos.
theorem rmake_advances (groups : Groups Int32) (rfixtokens : List Text) (integers : IntegerTags rfixtokens)
    (last : LastNotCounter groups rfixtokens) :
    (∀ (rMsgFix : List MsgFix) (inc : Nat) (pRptGroup : Option (Finset Int32)), inc ≤ rfixtokens.length →
      ∃ made r, (∀ fuel, enoughFuel rfixtokens ≤ fuel →
          msgFixRmake rfixtokens groups fuel rMsgFix inc pRptGroup = .ok (made, r)) ∧
        inc ≤ r ∧ r ≤ rfixtokens.length ∧ (pRptGroup = none → r = rfixtokens.length) ∧
        ∀ set pair, pRptGroup = some set → readToken rfixtokens inc = .ok pair → pair.firstAsInt ∈ set → inc < r) ∧
    (∀ (pair : TagVal) (rRptTags : Finset Int32) (rMsgFix : List MsgFix) (pos : Nat) (npair : TagVal),
      pos ≤ rfixtokens.length → (pos < rfixtokens.length → readToken rfixtokens pos = .ok npair) →
      ∃ made r, (∀ fuel, enoughFuel rfixtokens < fuel →
          msgFixEntries rfixtokens groups pair rRptTags fuel rMsgFix pos npair = .ok (made, r)) ∧
        pos ≤ r ∧ r ≤ rfixtokens.length ∧ (pos < rfixtokens.length → npair.firstAsInt ∈ rRptTags → pos < r)) := by
  have few (inc : Nat) : 2 * ((pairsOf rfixtokens).drop inc).length + 1 ≤ enoughFuel rfixtokens := by
    rw [List.length_drop, pairs_length rfixtokens integers, enoughFuel]
    omega
  constructor
  · intro rMsgFix inc pRptGroup within
    have ahead := integer_ahead_at rfixtokens integers inc within
    obtain ⟨made, r, returns, notBack, inside, top, further⟩ := read_advances (fixSource rfixtokens) fixBuilder groups rMsgFix
      inc pRptGroup _ (last_plain_from groups rfixtokens integers last inc) ahead
    refine ⟨made, r, ?_, notBack, inside, top, ?_⟩
    · intro fuel enough
      rw [(rmake_reads rfixtokens groups fuel).1]
      exact returns fuel ((few inc).trans enough)
    · intro set pair given read member
      obtain ⟨tail, shape⟩ := head_read rfixtokens inc pair _ ahead read
      exact further set given (by rw [shape]; exact member)
  · intro pair rRptTags rMsgFix pos npair within current
    have ahead := integer_ahead_at rfixtokens integers pos within
    obtain ⟨made, r, returns, notBack, inside, further⟩ := read_entries_advances (fixSource rfixtokens) fixBuilder groups
      rMsgFix pos pair.token rRptTags npair.token _ (last_plain_from groups rfixtokens integers last pos) ahead
      (next_pair_looks rfixtokens pos npair _ ahead current)
    refine ⟨made, r, ?_, notBack, inside, ?_⟩
    · intro fuel enough
      rw [(rmake_reads rfixtokens groups fuel).2]
      exact returns fuel (by have bound := few pos; omega)
    · intro bound member
      obtain ⟨tail, shape⟩ := head_read rfixtokens pos npair _ ahead (current bound)
      exact further (by rw [shape]; exact member)

theorem rmake_advances_parties :
    let tokens := ["35=D".toList, "453=2".toList, "448=A".toList, "448=B".toList, "10=001".toList]
    let parties : Finset Int32 := {448, 447, 452, 802}
    IntegerTags tokens ∧ LastNotCounter getFix42RepeatingGroups tokens ∧ readToken tokens 2 = .ok ⟨448, "A".toList⟩ ∧
    (∃ made r, (∀ fuel, enoughFuel tokens ≤ fuel →
        msgFixRmake tokens getFix42RepeatingGroups fuel [] 2 (some parties) = .ok (made, r)) ∧ 2 < r ∧ r ≤ tokens.length) ∧
    (∃ made r, (∀ fuel, enoughFuel tokens < fuel →
        msgFixEntries tokens getFix42RepeatingGroups ⟨453, "2".toList⟩ parties fuel [] 2 ⟨448, "A".toList⟩ = .ok (made, r)) ∧
      2 < r ∧ r ≤ tokens.length) := by
  intro tokens parties
  have integers : IntegerTags tokens := integer_tags_checked tokens rfl
  have last : LastNotCounter getFix42RepeatingGroups tokens :=
    last_not_counter_at getFix42RepeatingGroups tokens "10=001".toList (10, "001".toList) rfl rfl rfl
  have read : readToken tokens 2 = .ok ⟨448, "A".toList⟩ := rfl
  have within : 2 < tokens.length := by decide
  have member : (448 : Int32) ∈ parties := by decide
  obtain ⟨calls, turns⟩ := rmake_advances getFix42RepeatingGroups tokens integers last
  obtain ⟨made, r, returns, _, inside, _, further⟩ := calls [] 2 (some parties) within.le
  obtain ⟨entries, pos, leaves, _, posInside, posFurther⟩ :=
    turns ⟨453, "2".toList⟩ parties [] 2 ⟨448, "A".toList⟩ within.le fun _ => read
  exact ⟨integers, last, read, ⟨made, r, returns, further parties _ rfl read member, inside⟩,
    ⟨entries, pos, leaves, posFurther within member, posInside⟩⟩

end Libx.Trd

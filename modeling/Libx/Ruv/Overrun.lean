import Libx.Ruv.Pairs
import Libx.Ruv.Reading

set_option autoImplicit false

namespace Libx.Viewer

open Counted

-- The characters the tokenizer goes over, from start_ to stop_.
def stretch (str : Text) (start stop : Nat) : Text := (str.drop start ++ ['\x00']).take (stop + 1 - start)

def Holds (separator : Char) (text : Text) (fields : List TagVal) : Prop :=
  ∃ tail, text = renderPairs separator fields ++ tail ∧ (∀ field ∈ fields, '=' ∉ field.1 ∧ separator ∉ field.2) ∧
    Unterminated separator tail

def MessageHolds (str : Text) (fields : List TagVal) : Prop :=
  ∃ separator pos35 start stop, getFixSeparator str = some (separator, pos35) ∧
    getFixMessage str separator pos35 = some (start, stop) ∧ Holds separator (stretch str start stop) fields

theorem holds_exists (separator : Char) (text : Text) : ∃ fields, Holds separator text fields := by
  by_cases opened : '=' ∈ text
  · obtain ⟨tag, behind, outer, tagClean⟩ := List.eq_append_cons_of_mem opened
    by_cases ended : separator ∈ behind
    · obtain ⟨value, rest, inner, valueClean⟩ := List.eq_append_cons_of_mem ended
      have shorter : rest.length < text.length := by
        rw [outer, inner]
        simp only [List.length_append, List.length_cons]
        omega
      obtain ⟨fields, tail, split, clean, unterminated⟩ := holds_exists separator rest
      refine ⟨(tag, value) :: fields, tail, by simp [outer, inner, split, render_cons, renderField], ?_, unterminated⟩
      intro field member
      cases List.mem_cons.mp member with
      | inl first =>
          rw [first]
          exact ⟨tagClean, valueClean⟩
      | inr later => exact clean field later
    · exact ⟨[], text, rfl, by simp, .inr ⟨tag, behind, outer, tagClean, ended⟩⟩
  · exact ⟨[], text, rfl, by simp, .inl opened⟩
termination_by text.length

theorem extracted_fields (str : Text) (separator : Char) (pos35 start stop : Nat) (fields : List TagVal)
    (guessed : getFixSeparator str = some (separator, pos35)) (found : getFixMessage str separator pos35 = some (start, stop))
    (forward : ¬ stop + 1 < start) (holds : Holds separator (stretch str start stop) fields) :
    getFixPairs [] str = some (true, fields) := by
  obtain ⟨tail, text, clean, unterminated⟩ := holds
  have covers : [] ++ renderPairs separator fields <+: str.drop start ++ ['\x00'] := by
    refine List.IsPrefix.trans ⟨tail, ?_⟩ (List.take_prefix (stop + 1 - start) (str.drop start ++ ['\x00']))
    rw [List.nil_append, ← text, stretch]
  have cut := tokenize_fields separator '\x00' [] (str.drop start) tail fields covers clean unterminated
  rw [← text, List.length_nil] at cut
  rw [getFixPairs, guessed]
  simp only [found, if_neg forward, List.nil_append, Option.some.injEq, Prod.mk.injEq, true_and]
  exact cut

theorem message_holds_iff (str : Text) (pairs fields : List TagVal) (extracted : getFixPairs [] str = some (true, pairs)) :
    MessageHolds str fields ↔ fields = pairs := by
  cases guessed : getFixSeparator str with
  | none => simp [getFixPairs, guessed] at extracted
  | some guess =>
      obtain ⟨separator, pos35⟩ := guess
      cases found : getFixMessage str separator pos35 with
      | none => simp [getFixPairs, guessed, found] at extracted
      | some bounds =>
          obtain ⟨start, stop⟩ := bounds
          have forward : ¬ stop + 1 < start := by
            intro wrapped
            simp [getFixPairs, guessed, found, wrapped] at extracted
          have same (others : List TagVal) (holds : Holds separator (stretch str start stop) others) : others = pairs := by
            have other := extracted_fields str separator pos35 start stop others guessed found forward holds
            rw [extracted] at other
            simpa using other.symm
          constructor
          · intro message
            obtain ⟨_, _, _, _, guessAgain, foundAgain, holds⟩ := message
            obtain ⟨rfl, rfl⟩ : separator = _ ∧ pos35 = _ := by simpa [guessed] using guessAgain
            obtain ⟨rfl, rfl⟩ : start = _ ∧ stop = _ := by simpa [found] using foundAgain
            exact same fields holds
          · intro equal
            obtain ⟨others, holds⟩ := holds_exists separator (stretch str start stop)
            rw [equal, ← same others holds]
            exact ⟨separator, pos35, start, stop, guessed, found, holds⟩

-- Only the look-ahead behind a counter at the end can miss, and it always does.
theorem root_in_range_iff (root : List Ruv) (pairs : List TagVal) (rRPGs : Groups Text) (idx : Column) :
    (∀ index, rmakeRoot root pairs rRPGs idx ≠ .error (.outOfRange index)) ↔ LastPlain rRPGs pairs := by
  constructor
  · intro within
    by_contra counter
    have behind : (pairSource pairs).token pairs.length = .error (.outOfRange pairs.length) := by simp [readPair]
    have missed := read_behind_end (pairSource pairs) (levelBuilder idx) rRPGs _ behind pairs counter (enoughFuel pairs)
      ⟨root, fun _ => 0⟩ (pairs_ahead pairs 0 pairs rfl (Nat.zero_le _)) le_rfl
    apply within pairs.length
    rw [rmakeRoot, (rmake_reads pairs rRPGs idx _).1, missed, Fallible.error_map]
  · intro plain index
    obtain ⟨items, rfl, parsed⟩ := exists_parsed rRPGs pairs plain
    rw [root_parsed root rRPGs idx items parsed]
    simp

theorem viewer_in_range_iff (str : Text) (pairs : List TagVal) (extracted : getFixPairs [] str = some (true, pairs))
    (rRPGs : Groups Text) (root : List Ruv) (idx : Column) :
    (∀ index, rmakeRoot root pairs rRPGs idx ≠ .error (.outOfRange index)) ↔
      ∀ fields, MessageHolds str fields → LastPlain rRPGs fields := by
  rw [root_in_range_iff root pairs rRPGs idx]
  simp [message_holds_iff str pairs _ extracted]

theorem viewer_in_range_iff_order :
    let linesOfText : Groups Text := fun tag => if tag = "33".toList then some {"58".toList, "354".toList, "355".toList} else none
    (∀ index, rmakeRoot [] [("35".toList, "D".toList), ("33".toList, "1".toList), ("58".toList, "t".toList),
        ("10".toList, "123".toList)] linesOfText 0 ≠ .error (.outOfRange index)) ↔
      ∀ fields, MessageHolds "35=D|33=1|58=t|10=123|".toList fields → LastPlain linesOfText fields := by
  intro linesOfText
  exact viewer_in_range_iff "35=D|33=1|58=t|10=123|".toList
    [("35".toList, "D".toList), ("33".toList, "1".toList), ("58".toList, "t".toList), ("10".toList, "123".toList)] (by decide)
    linesOfText [] 0

theorem viewer_reads_behind_counter :
    let linesOfText : Groups Text := fun tag => if tag = "33".toList then some {"58".toList, "354".toList, "355".toList} else none
    getFixPairs [] "35=D|33=1|10=123".toList = some (true, [("35".toList, "D".toList), ("33".toList, "1".toList)]) ∧
      (rmakeRoot [] [("35".toList, "D".toList), ("33".toList, "1".toList)] linesOfText 0).map List.length =
        .error (.outOfRange 2) := by
  decide

end Libx.Viewer

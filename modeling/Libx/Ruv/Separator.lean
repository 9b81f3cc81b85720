import Libx.Ruv.Pairs

set_option autoImplicit false

namespace Libx.Viewer

open Search

def OpensField (str : Text) (separator : Char) (pos35 : Nat) : Prop :=
  "35=".toList <+: str.drop pos35 ∧ (pos35 = 0 ∨ str[pos35 - 1]? = some separator)

instance (str : Text) (separator : Char) (pos35 : Nat) : Decidable (OpensField str separator pos35) :=
  inferInstanceAs (Decidable (_ ∧ _))

def LooseSecond (str : Text) : Prop :=
  ∃ c value separator rest, str = c :: ("35=".toList ++ (value ++ separator :: rest)) ∧ (∀ d ∈ value, d ∈ letters) ∧
    separator ∉ letters ∧ c ≠ separator

theorem separator_cut (str : Text) (separator : Char) (pos35 : Nat) (guessed : getFixSeparator str = some (separator, pos35)) :
    ∃ front value rest, str = front ++ ("35=".toList ++ (value ++ separator :: rest)) ∧ pos35 = front.length ∧
      (∀ d ∈ value, d ∈ letters) ∧ separator ∉ letters ∧
      ¬ (1 < pos35 ∧ str.getD (pos35 - 1) '\x00' ≠ separator) := by
  cases opened : find str "35=".toList 0 with
  | none => simp only [getFixSeparator, opened, reduceCtorEq] at guessed
  | some place =>
      cases ended : findFirstNotOf str letters (place + 3) with
      | none => simp only [getFixSeparator, opened, ended, reduceCtorEq] at guessed
      | some pos =>
          by_cases loose : 1 < place ∧ str.getD (place - 1) '\x00' ≠ str.getD pos '\x00'
          · simp only [getFixSeparator, opened, ended, if_pos loose, reduceCtorEq] at guessed
          · simp only [getFixSeparator, opened, ended, if_neg loose, Option.some.injEq, Prod.mk.injEq] at guessed
            obtain ⟨guess, rfl⟩ := guessed
            rw [find, if_pos (Nat.zero_le _), List.drop_zero] at opened
            obtain ⟨front, behind, split, start⟩ := find_some _ _ _ _ opened
            obtain rfl : place = front.length := by omega
            have head : (front ++ "35=".toList).length = front.length + 3 := List.length_append
            rw [findFirstNotOf, split, ← List.append_assoc, ← head, List.drop_left] at ended
            obtain ⟨value, c, rest, tail, stop, inside, outside⟩ := find_not_some _ _ _ _ ended
            have here : str.getD pos '\x00' = c := by
              have place : pos = (front ++ ("35=".toList ++ value)).length := by
                simp only [stop, List.length_append]
                omega
              have middle := get_middle (front ++ ("35=".toList ++ value)) rest c pos place
              rw [split, tail]
              rwa [List.append_assoc, List.append_assoc] at middle
            rw [here] at guess loose
            subst guess
            exact ⟨front, value, rest, by rw [split, tail], rfl, inside, outside, loose⟩

theorem loose_guessed (c separator : Char) (value rest : Text) (inside : ∀ d ∈ value, d ∈ letters) (outside : separator ∉ letters) :
    getFixSeparator (c :: ("35=".toList ++ (value ++ separator :: rest))) = some (separator, 1) := by
  have absent : Absent "35=".toList [c] ("35=".toList ++ (value ++ separator :: rest)) := by
    refine ⟨fun here => ?_, trivial⟩
    have second := (List.cons_prefix_cons.mp here).2
    exact absurd (List.cons_prefix_cons.mp second).1 (by decide)
  have opened := find_start [c] "35=".toList (value ++ separator :: rest) absent
  have behind := find_not_behind (c :: "35=".toList) value rest separator letters inside outside
  have place : 4 + value.length = (c :: ("35=".toList ++ value)).length := by
    rw [List.length_cons, List.length_append, show "35=".toList.length = 3 from rfl]
    omega
  have guess := get_middle (c :: ("35=".toList ++ value)) rest separator (4 + value.length) place
  rw [List.cons_append, List.append_assoc] at guess
  rw [List.singleton_append] at opened
  rw [List.cons_append] at behind
  have ended : findFirstNotOf (c :: ("35=".toList ++ (value ++ separator :: rest))) letters ([c].length + 3) =
      some (4 + value.length) := behind
  rw [getFixSeparator, opened]
  simp only [ended]
  rw [guess, if_neg (by simp)]
  rfl

theorem tight_opens (str : Text) (tight : ¬ LooseSecond str) (separator : Char) (pos35 : Nat)
    (guessed : getFixSeparator str = some (separator, pos35)) : OpensField str separator pos35 := by
  obtain ⟨front, value, rest, split, start, inside, outside, checked⟩ := separator_cut str separator pos35 guessed
  refine ⟨by rw [split, start, List.drop_left]; exact List.prefix_append _ _, ?_⟩
  cases front using List.reverseRecOn with
  | nil => exact .inl start
  | append_singleton front c _ =>
      have last : str[pos35 - 1]? = some c := by
        rw [split, start]
        simp
      by_cases apart : c = separator
      · exact .inr (apart ▸ last)
      · cases front with
        | nil => exact absurd ⟨c, value, separator, rest, split, inside, outside, apart⟩ tight
        | cons d front =>
            have long : 1 < pos35 := by
              rw [start]
              simp
            exact absurd ⟨long, by rwa [List.getD_eq_getElem?_getD, last]⟩ checked

theorem pairs_guessed (str : Text) (fixpairs found : List TagVal) (extracted : getFixPairs fixpairs str = some (true, found)) :
    ∃ separator pos35, getFixSeparator str = some (separator, pos35) := by
  cases guessed : getFixSeparator str with
  | none => simp [getFixPairs, guessed] at extracted
  | some guess => exact ⟨guess.1, guess.2, rfl⟩

theorem separator_sound_iff (str : Text) :
    ((∀ separator pos35, getFixSeparator str = some (separator, pos35) → OpensField str separator pos35) ↔ ¬ LooseSecond str) ∧
      (¬ LooseSecond str → ∀ fixpairs found, getFixPairs fixpairs str = some (true, found) →
        ∃ separator pos35, getFixSeparator str = some (separator, pos35) ∧ OpensField str separator pos35) := by
  refine ⟨⟨?_, fun tight separator pos35 => tight_opens str tight separator pos35⟩, fun tight fixpairs found extracted => ?_⟩
  · rintro sound ⟨c, value, separator, rest, rfl, inside, outside, apart⟩
    obtain ⟨_, before⟩ := sound separator 1 (loose_guessed c separator value rest inside outside)
    cases before with
    | inl first => exact absurd first (by decide)
    | inr preceding => exact apart (by simpa using preceding)
  · obtain ⟨separator, pos35, guessed⟩ := pairs_guessed str fixpairs found extracted
    exact ⟨separator, pos35, guessed, tight_opens str tight separator pos35 guessed⟩

theorem separator_behind_one :
    getFixSeparator "135=D|10=000|".toList = some ('|', 1) ∧ ¬ OpensField "135=D|10=000|".toList '|' 1 ∧
      getFixPairs [] "135=D|10=000|".toList = some (true, [("35".toList, "D".toList), ("10".toList, "000".toList)]) := by
  decide

end Libx.Viewer

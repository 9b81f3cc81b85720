import Libx.MsgFix.Laws

set_option autoImplicit false

namespace Libx.Trd

open Counted

def intText (n : Int32) : Text :=
  if n.toInt < 0 then '-' :: Nat.toDigits 10 n.toInt.natAbs else Nat.toDigits 10 n.toInt.natAbs

def tokenText (token : Token Int32 Text) : Text := intText token.1 ++ '=' :: token.2

def renderTokens (items : FixItems) : List Text := items.render.map tokenText

theorem decimal_digits (n : Nat) : ∀ c ∈ Nat.toDigits 10 n, c.isDigit = true := by
  intro c member
  exact Nat.isDigit_of_mem_toDigits (by decide) (by decide) member

theorem decimal_head (n : Nat) : ∃ c tail, Nat.toDigits 10 n = c :: tail ∧ c.isDigit = true := by
  obtain ⟨c, tail, shape⟩ := List.exists_cons_of_ne_nil (Nat.toDigits_ne_nil (n := n) (b := 10))
  exact ⟨c, tail, shape, decimal_digits n c (by simp [shape])⟩

def intSpelling (n : Int32) : Spelling where
  blanks := []
  sign := if n.toInt < 0 then .minus else .absent
  digits := Nat.toDigits 10 n.toInt.natAbs
  rest := []
  blank := fun _ absent => absurd absent List.not_mem_nil
  digit := decimal_digits n.toInt.natAbs
  filled := Nat.toDigits_ne_nil
  ends := fun _ absent => nomatch absent

theorem int_spelling_text (n : Int32) : (intSpelling n).text = intText n := by
  by_cases negative : n.toInt < 0
  · simp [intSpelling, Spelling.text, intText, negative, Sign.text]
  · simp [intSpelling, Spelling.text, intText, negative, Sign.text]

theorem int_spelling_number (n : Int32) : (intSpelling n).number = n.toInt := by
  by_cases negative : n.toInt < 0
  · simp only [intSpelling, Spelling.number, if_pos negative, Nat.ofDigitChars_ten_toDigits]
    omega
  · simp only [intSpelling, Spelling.number, if_neg negative, Nat.ofDigitChars_ten_toDigits]
    omega

theorem stoi_int_text (n : Int32) : stoi (intText n) = .ok n := by
  rw [← int_spelling_text]
  exact stoi_spelling (intSpelling n) n (int_spelling_number n)

theorem int_text_no_equal (n : Int32) : '=' ∉ intText n := by
  intro member
  have digits : '=' ∉ Nat.toDigits 10 n.toInt.natAbs := fun inside => (digit_ne '=' (decimal_digits _ '=' inside)).2.2 rfl
  rw [intText] at member
  split at member
  · cases List.mem_cons.mp member with
    | inl sign => exact absurd sign (by decide)
    | inr later => exact digits later
  · exact digits member

theorem token_text_spelled (token : Token Int32 Text) : Spells (tokenText token) token := by
  have spelled := Spells.field (intSpelling token.1) token.1 token.2 (by
    rw [int_spelling_text]
    exact int_text_no_equal token.1) (int_spelling_number token.1)
  rwa [int_spelling_text] at spelled

theorem extract_token_text (token : Token Int32 Text) : extractTagVal (tokenText token) = .ok ⟨token.1, token.2⟩ :=
  extract_spelled (tokenText token) token (token_text_spelled token)

theorem rmake_render (groups : Groups Int32) (items : FixItems) (shaped : items.Shaped groups)
    (separated : items.Separated groups []) :
    msgFixRmakeRoot (renderTokens items) groups = .ok (buildItems items, (renderTokens items).length) := by
  have parsed : items.Parsed groups none [] :=
    separated_parsed groups none items [] shaped separated (fun set absent => by simp at absent) trivial
  refine root_parsed groups (renderTokens items) items ?_ parsed
  simp [renderTokens, extract_token_text, Function.comp_def]

theorem rmake_render_parties :
    let entry (party : String) : FixItems := .field 448 party.toList (.field 447 "D".toList .nil)
    let items : FixItems :=
      .field 35 "D".toList (.group 453 "2".toList (.cons (entry "A") (.cons (entry "B") .nil)) (.field 10 "001".toList .nil))
    msgFixRmakeRoot (renderTokens items) getFix42RepeatingGroups = .ok (buildItems items, (renderTokens items).length) := by
  intro entry items
  refine rmake_render getFix42RepeatingGroups items ?_ ?_
  · refine ⟨rfl, ⟨⟨_, rfl, ?_⟩, rfl, trivial⟩⟩
    simp [entry, Entries.Shaped, Items.Shaped, Items.tags, getFix42RepeatingGroups]
  · simp [items, entry, Items.Separated, Entries.Separated, Entries.Chained, Items.tags, HeadIn, getFix42RepeatingGroups]

end Libx.Trd

import Libx.MsgFix.Reading
import Mathlib.Data.List.TakeWhile

set_option autoImplicit false

namespace Libx.Trd

open Counted

inductive Sign where
  | absent
  | plus
  | minus
deriving DecidableEq

def Sign.text : Sign → Text
  | .absent => []
  | .plus => ['+']
  | .minus => ['-']

-- The texts that have a number: blanks, a sign or none, digits, and then what no digit begins.
structure Spelling where
  blanks : Text
  sign : Sign
  digits : Text
  rest : Text
  blank : ∀ c ∈ blanks, isSpace c = true
  digit : ∀ c ∈ digits, c.isDigit = true
  filled : digits ≠ []
  ends : ∀ c, rest.head? = some c → c.isDigit = false

def Spelling.text (spelling : Spelling) : Text := spelling.blanks ++ (spelling.sign.text ++ (spelling.digits ++ spelling.rest))

def Spelling.number (spelling : Spelling) : Int :=
  match spelling.sign with
  | .minus => -(Nat.ofDigitChars 10 spelling.digits 0 : Int)
  | _ => Nat.ofDigitChars 10 spelling.digits 0

-- The tag and the value of a token: what stands before its first '=' and behind
-- it. A token without one is its own value.
inductive Spells : Text → Token Int32 Text → Prop where
  | field (spelling : Spelling) (tag : Int32) (val : Text) (first : '=' ∉ spelling.text) (number : spelling.number = tag.toInt) :
      Spells (spelling.text ++ '=' :: val) (tag, val)
  | bare (spelling : Spelling) (tag : Int32) (none_ : '=' ∉ spelling.text) (number : spelling.number = tag.toInt) :
      Spells spelling.text (tag, spelling.text)

theorem digit_not_space (c : Char) (digit : c.isDigit = true) : isSpace c = false := by
  have bounds : 48 ≤ c.val ∧ c.val ≤ 57 := by simpa [Char.isDigit] using digit
  simp only [isSpace, List.mem_cons, List.not_mem_nil, or_false, decide_eq_false_iff_not, not_or]
  refine ⟨?_, ?_, ?_, ?_, ?_, ?_⟩ <;> rintro rfl <;> exact absurd bounds (by decide)

theorem digit_ne (c : Char) (digit : c.isDigit = true) : c ≠ '-' ∧ c ≠ '+' ∧ c ≠ '=' := by
  refine ⟨?_, ?_, ?_⟩ <;> rintro rfl <;> exact absurd digit (by decide)

section Spellings

variable (spelling : Spelling)

theorem spelling_digit : ∃ c tail, spelling.digits = c :: tail ∧ c.isDigit = true := by
  obtain ⟨c, tail, shape⟩ := List.exists_cons_of_ne_nil spelling.filled
  exact ⟨c, tail, shape, spelling.digit c (by simp [shape])⟩

theorem spelling_body : spelling.text.dropWhile isSpace = spelling.sign.text ++ (spelling.digits ++ spelling.rest) := by
  obtain ⟨c, tail, shape, digit⟩ := spelling_digit spelling
  rw [Spelling.text, List.dropWhile_append_of_pos spelling.blank]
  cases spelling.sign with
  | absent => rw [Sign.text, List.nil_append, shape, List.cons_append, List.dropWhile_cons_of_neg (by simp [digit_not_space c digit])]
  | plus => rw [Sign.text, List.singleton_append, List.dropWhile_cons_of_neg (by decide)]
  | minus => rw [Sign.text, List.singleton_append, List.dropWhile_cons_of_neg (by decide)]

theorem spelling_take : (spelling.digits ++ spelling.rest).takeWhile Char.isDigit = spelling.digits := by
  rw [List.takeWhile_append_of_pos spelling.digit]
  cases shape : spelling.rest with
  | nil => rw [List.takeWhile_nil, List.append_nil]
  | cons c rest => rw [List.takeWhile_cons_of_neg (by simp [spelling.ends c (by simp [shape])]), List.append_nil]

theorem stoi_spelling (n : Int32) (number : spelling.number = n.toInt) : stoi spelling.text = .ok n := by
  obtain ⟨c, tail, shape, digit⟩ := spelling_digit spelling
  obtain ⟨notMinus, notPlus, _⟩ := digit_ne c digit
  have low := n.le_toInt
  have high := n.toInt_lt
  have body := spelling_body spelling
  have taken := spelling_take spelling
  rw [Spelling.number] at number
  cases sign : spelling.sign with
  | absent =>
      have first : (spelling.digits ++ spelling.rest).head? = some c := by rw [shape]; rfl
      simp only [sign, Sign.text, List.nil_append] at body number
      simp only [stoi, body, first, Option.some.injEq, notMinus, notPlus, or_self, if_false, taken, spelling.filled, number]
      rw [if_pos ⟨low, high⟩, Int32.ofInt_toInt]
  | plus =>
      simp only [sign, Sign.text, List.singleton_append] at body number
      simp only [stoi, body, List.head?_cons, Option.some.injEq, Char.reduceEq, or_true, if_true, List.tail_cons, taken,
        spelling.filled, if_false, number]
      rw [if_pos ⟨low, high⟩, Int32.ofInt_toInt]
  | minus =>
      simp only [sign, Sign.text, List.singleton_append] at body number
      simp only [stoi, body, List.head?_cons, true_or, if_true, List.tail_cons, taken, spelling.filled, if_false, number]
      rw [if_pos ⟨low, high⟩, Int32.ofInt_toInt]

end Spellings

theorem sign_split (body : Text) : ∃ sign : Sign, ∃ unsigned, body = sign.text ++ unsigned ∧
    (decide (body.head? = some '-') = decide (sign = .minus)) ∧
    (if body.head? = some '-' ∨ body.head? = some '+' then body.tail else body) = unsigned := by
  by_cases minus : body.head? = some '-'
  · obtain ⟨unsigned, rfl⟩ := List.head?_eq_some_iff.mp minus
    exact ⟨.minus, unsigned, rfl, by simp, by simp⟩
  · by_cases plus : body.head? = some '+'
    · obtain ⟨unsigned, rfl⟩ := List.head?_eq_some_iff.mp plus
      exact ⟨.plus, unsigned, rfl, by simp, by simp⟩
    · exact ⟨.absent, body, rfl, by simp [minus], by simp [minus, plus]⟩

theorem spelling_of_stoi (text : Text) (n : Int32) (read : stoi text = .ok n) :
    ∃ spelling : Spelling, spelling.text = text ∧ spelling.number = n.toInt := by
  obtain ⟨sign, unsigned, shape, negative, tail⟩ := sign_split (text.dropWhile isSpace)
  simp only [stoi, tail] at read
  by_cases filled : unsigned.takeWhile Char.isDigit = []
  · simp [filled] at read
  · rw [if_neg filled] at read
    have ends : ∀ c, (unsigned.dropWhile Char.isDigit).head? = some c → c.isDigit = false := by
      intro c first
      have stopped := List.head?_dropWhile_not Char.isDigit unsigned
      rw [first] at stopped
      simpa using stopped
    let spelling : Spelling :=
      { blanks := text.takeWhile isSpace, sign := sign, digits := unsigned.takeWhile Char.isDigit,
        rest := unsigned.dropWhile Char.isDigit, blank := fun c member => List.mem_takeWhile_imp member,
        digit := fun c member => List.mem_takeWhile_imp member, filled := filled, ends := ends }
    have whole : spelling.text = text := by
      rw [Spelling.text, List.takeWhile_append_dropWhile, ← shape, List.takeWhile_append_dropWhile]
    have value : (if (text.dropWhile isSpace).head? = some '-' then
        -(Nat.ofDigitChars 10 (unsigned.takeWhile Char.isDigit) 0 : Int) else Nat.ofDigitChars 10 (unsigned.takeWhile Char.isDigit) 0) =
        spelling.number := by
      have same := decide_eq_decide.mp negative
      rw [Spelling.number]
      cases sign with
      | absent => exact if_neg (by simp [same])
      | plus => exact if_neg (by simp [same])
      | minus => exact if_pos (by simp [same])
    refine ⟨spelling, whole, ?_⟩
    simp only [value] at read
    by_cases fits : -2 ^ 31 ≤ spelling.number ∧ spelling.number < 2 ^ 31
    · rw [if_pos fits] at read
      rw [← Except.ok.inj read, Int32.toInt_ofInt_of_le fits.1 fits.2]
    · rw [if_neg fits] at read
      exact nomatch read

theorem no_equal (text : Text) (clean : '=' ∉ text) : text.findIdx? (· = '=') = none :=
  List.findIdx?_eq_none_iff.mpr fun _ member => decide_eq_false fun same => clean (same ▸ member)

theorem find_equal (front back : Text) (clean : '=' ∉ front) :
    (front ++ '=' :: back).findIdx? (· = '=') = some front.length := by
  simp [List.findIdx?_append, no_equal front clean, List.findIdx?_cons]

theorem extract_spelled (token : Text) (pair : Token Int32 Text) (spelled : Spells token pair) :
    extractTagVal token = .ok ⟨pair.1, pair.2⟩ := by
  cases spelled with
  | field spelling tag val first number =>
      have drop : (spelling.text ++ '=' :: val).drop spelling.text.length = '=' :: val := List.drop_left
      simp only [extractTagVal, find_equal spelling.text val first, List.take_left, stoi_spelling spelling tag number, ← List.drop_drop,
        drop, List.drop_succ_cons, List.drop_zero]
      rfl
  | bare spelling tag none_ number =>
      simp only [extractTagVal, no_equal spelling.text none_, stoi_spelling spelling tag number]
      rfl

theorem spelled_extract (token : Text) (pair : TagVal) (read : extractTagVal token = .ok pair) :
    Spells token (pair.firstAsInt, pair.second) := by
  rw [extractTagVal] at read
  cases found : token.findIdx? (· = '=') with
  | none =>
      simp only [found] at read
      obtain ⟨tag, number, built⟩ := (Fallible.bind_ok_iff _ _ _).mp read
      obtain rfl := Except.ok.inj built
      obtain ⟨spelling, rfl, value⟩ := spelling_of_stoi token tag number
      have absent : '=' ∉ spelling.text := by
        intro member
        simpa using List.findIdx?_eq_none_iff.mp found '=' member
      exact .bare spelling tag absent value
  | some place =>
      simp only [found] at read
      obtain ⟨tag, number, built⟩ := (Fallible.bind_ok_iff _ _ _).mp read
      obtain rfl := Except.ok.inj built
      obtain ⟨spelling, text, value⟩ := spelling_of_stoi (token.take place) tag number
      obtain ⟨inside, here, before⟩ := List.findIdx?_eq_some_iff_getElem.mp found
      have equal : token[place] = '=' := by simpa using here
      have shape : token = spelling.text ++ '=' :: token.drop (place + 1) := by
        rw [text, ← equal, ← List.drop_eq_getElem_cons inside, List.take_append_drop]
      have first : '=' ∉ spelling.text := by
        rw [text]
        intro member
        obtain ⟨i, bound, same⟩ := List.mem_iff_getElem.mp member
        rw [List.length_take] at bound
        rw [List.getElem_take] at same
        simpa [same] using before i (by omega)
      have spelled := Spells.field spelling tag (token.drop (place + 1)) first value
      rwa [← shape] at spelled

theorem spells_iff (token : Text) (pair : Token Int32 Text) : extractTagVal token = .ok ⟨pair.1, pair.2⟩ ↔ Spells token pair :=
  ⟨spelled_extract token ⟨pair.1, pair.2⟩, extract_spelled token pair⟩

end Libx.Trd

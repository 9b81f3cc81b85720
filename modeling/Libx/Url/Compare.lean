import Libx.Url.RoundTrip

set_option autoImplicit false

namespace Libx.Url

def isxdigit (c : UInt8) : Bool := isdigit (promoted c) || 65 ≤ promoted c && promoted c ≤ 70 || 97 ≤ promoted c && promoted c ≤ 102

def startsHex : Bytes → Bool
  | high :: low :: _ => isxdigit high && isxdigit low
  | _ => false

def EscapesValid (s : Bytes) : Prop := ∀ front rest, s = front ++ byte '%' :: rest → startsHex rest = true

theorem hex2dec_value (c : UInt8) : hex2dec c = if isxdigit c = true then fromHex c else -1 := by
  have table : HEX2DEC = (List.range 256).map fun n =>
      if isxdigit (.ofNat n) = true then fromHex (.ofNat n) else -1 := by
    decide +kernel
  rw [hex2dec, table, List.getD_eq_getElem?_getD, List.getElem?_map, List.getElem?_range c.toNat_lt, Option.map_some,
    Option.getD_some, UInt8.ofNat_toNat]

def nibbles : List Int8 := (List.range 16).map Int8.ofNat

theorem hex_digit_value (c : UInt8) (digit : isxdigit c = true) : fromHex c ∈ nibbles := by
  revert digit
  apply all_bytes fun c => isxdigit c = true → fromHex c ∈ nibbles
  decide +kernel

theorem hex_digit_known (c : UInt8) : isxdigit c = true ↔ hex2dec c ≠ -1 := by
  rw [hex2dec_value]
  by_cases digit : isxdigit c = true
  · have small := hex_digit_value c digit
    rw [if_pos digit]
    exact ⟨fun _ same => absurd (same ▸ small) (by decide), fun _ => digit⟩
  · simp [digit]

theorem hex_digit_plain (c : UInt8) (digit : isxdigit c = true) : c ≠ 0 ∧ c ≠ byte '%' := by
  revert digit
  apply all_bytes fun c => isxdigit c = true → c ≠ 0 ∧ c ≠ byte '%'
  decide +kernel

theorem digits_same (high low : UInt8) (first : isxdigit high = true) (second : isxdigit low = true) :
    joined high low = added (hex2dec high) (hex2dec low) := by
  have checked : ∀ x ∈ nibbles, ∀ y ∈ nibbles, x.toInt32 <<< 4 ||| y.toInt32 = x.toInt32 <<< 4 + y.toInt32 := by
    decide +kernel
  rw [joined, added, hex2dec_value, hex2dec_value, if_pos first, if_pos second,
    checked _ (hex_digit_value high first) _ (hex_digit_value low second)]

theorem joined_percent (c : UInt8) : joined c (byte '%') ≠ byte '%' ∧ joined (byte '%') c ≠ byte '%' := by
  apply all_bytes fun c => joined c (byte '%') ≠ byte '%' ∧ joined (byte '%') c ≠ byte '%'
  decide +kernel

theorem uri_decode_kept (c : UInt8) (rest : Bytes) (kept : c = byte '%' → startsHex rest = false) :
    uriDecode (c :: rest) = plusToSpace c :: uriDecode rest := by
  cases rest with
  | nil => simp [uriDecode]
  | cons next rest =>
      cases rest with
      | nil => simp [uriDecode]
      | cons last rest =>
          have noEscape : ¬ (c = byte '%' ∧ hex2dec next ≠ -1 ∧ hex2dec last ≠ -1) := by
            rintro ⟨percent, first, second⟩
            have invalid := kept percent
            simp [startsHex, (hex_digit_known next).mpr first, (hex_digit_known last).mpr second] at invalid
          rw [uriDecode, if_neg noEscape]

theorem both_decode_digits (high low : UInt8) (after : Bytes) (first : isxdigit high = true) (second : isxdigit low = true) :
    urlDecode (byte '%' :: high :: low :: after) = added (hex2dec high) (hex2dec low) :: urlDecode after ∧
      uriDecode (byte '%' :: high :: low :: after) = added (hex2dec high) (hex2dec low) :: uriDecode after := by
  constructor
  · rw [urlDecode, if_pos rfl, if_pos ⟨(hex_digit_plain high first).1, (hex_digit_plain low second).1⟩,
      digits_same high low first second]
  · rw [uriDecode, if_pos ⟨rfl, (hex_digit_known high).mp first, (hex_digit_known low).mp second⟩]

theorem starts_hex_split (rest : Bytes) (valid : startsHex rest = true) :
    ∃ high low after, rest = high :: low :: after ∧ isxdigit high = true ∧ isxdigit low = true := by
  cases rest with
  | nil => simp [startsHex] at valid
  | cons high rest =>
      cases rest with
      | nil => simp [startsHex] at valid
      | cons low after =>
          obtain ⟨first, second⟩ := Bool.and_eq_true_iff.mp valid
          exact ⟨high, low, after, rfl, first, second⟩

theorem uri_decode_digit (c : UInt8) (rest : Bytes) (digit : isxdigit c = true) :
    uriDecode (c :: rest) = plusToSpace c :: uriDecode rest :=
  uri_decode_kept c rest fun percent => absurd percent (hex_digit_plain c digit).2

theorem uri_decode_cons_length (c : UInt8) (rest : Bytes) : (uriDecode rest).length ≤ (uriDecode (c :: rest)).length + 1 := by
  by_cases escape : c = byte '%' ∧ startsHex rest = true
  · obtain ⟨rfl, valid⟩ := escape
    obtain ⟨high, low, after, rfl, first, second⟩ := starts_hex_split rest valid
    rw [(both_decode_digits high low after first second).2, uri_decode_digit high _ first, uri_decode_digit low _ second]
    simp
  · rw [uri_decode_kept c rest fun percent => eq_false_of_ne_true fun valid => escape ⟨percent, valid⟩, List.length_cons]
    exact Nat.le_add_right_of_le (Nat.le_succ _)

-- Two bytes in front take nothing away: where an escape begins at the first
-- one, a digit stands at the second, so that none begins there.
theorem uri_decode_pair_length (high low : UInt8) (after : Bytes) :
    (uriDecode after).length ≤ (uriDecode (high :: low :: after)).length := by
  by_cases escape : high = byte '%' ∧ startsHex (low :: after) = true
  · obtain ⟨rfl, valid⟩ := escape
    obtain ⟨first, last, rest, same, firstDigit, lastDigit⟩ := starts_hex_split (low :: after) valid
    obtain ⟨rfl, rfl⟩ := List.cons_eq_cons.mp same
    rw [(both_decode_digits low last rest firstDigit lastDigit).2, uri_decode_digit last _ lastDigit]
    simp
  · rw [uri_decode_kept high _ fun percent => eq_false_of_ne_true fun valid => escape ⟨percent, valid⟩, List.length_cons]
    exact uri_decode_cons_length low after

theorem url_decode_invalid (rest : Bytes) (invalid : startsHex rest = false) :
    urlDecode (byte '%' :: rest) = urlDecode rest ∨
      ∃ high low after, rest = high :: low :: after ∧ urlDecode (byte '%' :: rest) = joined high low :: urlDecode after := by
  cases rest with
  | nil => exact .inl (by simp [urlDecode])
  | cons high rest =>
      cases rest with
      | nil => exact .inl (by simp [urlDecode])
      | cons low after =>
          by_cases some_ : high ≠ 0 ∧ low ≠ 0
          · exact .inr ⟨high, low, after, rfl, by rw [urlDecode, if_pos rfl, if_pos some_]⟩
          · exact .inl (by rw [urlDecode, if_pos rfl, if_neg some_])

theorem escape_induction {motive : Bytes → Prop} (nil : motive [])
    (plain : ∀ c rest, c ≠ byte '%' → motive rest → motive (c :: rest))
    (escape : ∀ high low after, isxdigit high = true → isxdigit low = true → motive after → motive (byte '%' :: high :: low :: after))
    (invalid : ∀ rest, startsHex rest = false → (∀ s : Bytes, s.length ≤ rest.length → motive s) → motive (byte '%' :: rest))
    (s : Bytes) : motive s := by
  induction size : s.length using Nat.strongRecOn generalizing s with
  | ind size ih =>
      subst size
      cases s with
      | nil => exact nil
      | cons c rest =>
          by_cases percent : c = byte '%'
          · subst percent
            cases valid : startsHex rest with
            | true =>
                obtain ⟨high, low, after, rfl, first, second⟩ := starts_hex_split rest valid
                exact escape high low after first second (ih after.length (by simp; omega) after rfl)
            | false => exact invalid rest valid fun s short => ih s.length (Nat.lt_succ_of_le short) s rfl
          · exact plain c rest percent (ih rest.length (by simp) rest rfl)

theorem url_decode_shorter (s : Bytes) : (urlDecode s).length ≤ (uriDecode s).length := by
  induction s using escape_induction with
  | nil => simp [urlDecode]
  | plain c rest percent ih =>
      rw [url_decode_default c rest percent, uri_decode_kept c rest fun same => absurd same percent]
      exact Nat.succ_le_succ ih
  | escape high low after first second ih =>
      obtain ⟨url, uri⟩ := both_decode_digits high low after first second
      rw [url, uri]
      exact Nat.succ_le_succ ih
  | invalid rest valid ih =>
      have later := ih rest (Nat.le_refl _)
      rw [uri_decode_kept _ rest fun _ => valid, List.length_cons]
      rcases url_decode_invalid rest valid with dropped | ⟨high, low, after, rfl, replaced⟩
      · rw [dropped]
        exact Nat.le_succ_of_le later
      · rw [replaced, List.length_cons]
        have behind := ih after (by simp; omega)
        exact Nat.succ_le_succ (Nat.le_trans behind (uri_decode_pair_length high low after))

-- An invalid escape is where the decoders part: '%' is lost, or three bytes
-- become one, which is no '%' where one of the two digits is a '%' itself.
theorem invalid_differs (rest : Bytes) (invalid : startsHex rest = false) :
    urlDecode (byte '%' :: rest) ≠ uriDecode (byte '%' :: rest) := by
  have shorter := url_decode_shorter rest
  rw [uri_decode_kept _ rest fun _ => invalid]
  rcases url_decode_invalid rest invalid with dropped | ⟨high, low, after, rfl, replaced⟩
  · rw [dropped]
    intro same
    rw [same, List.length_cons] at shorter
    exact absurd shorter (Nat.not_succ_le_self _)
  · rw [replaced]
    intro same
    obtain ⟨first, later⟩ := List.cons_eq_cons.mp same
    have percent : joined high low = byte '%' := first
    have highPlain : high ≠ byte '%' := fun same => (joined_percent low).2 (same ▸ percent)
    have lowPlain : low ≠ byte '%' := fun same => (joined_percent high).1 (same ▸ percent)
    rw [uri_decode_kept high _ fun same => absurd same highPlain, uri_decode_kept low _ fun same => absurd same lowPlain] at later
    have behind := url_decode_shorter after
    rw [later, List.length_cons, List.length_cons] at behind
    exact absurd behind (by omega)

theorem escapes_valid_cons (c : UInt8) (rest : Bytes) :
    EscapesValid (c :: rest) ↔ (c = byte '%' → startsHex rest = true) ∧ EscapesValid rest := by
  constructor
  · intro valid
    refine ⟨fun percent => valid [] rest (by rw [percent]; rfl), fun front after split => ?_⟩
    exact valid (c :: front) after (by rw [split]; rfl)
  · rintro ⟨here, later⟩ front after split
    cases front with
    | nil =>
        obtain ⟨percent, rfl⟩ := List.cons_eq_cons.mp split
        exact here percent
    | cons d front =>
        obtain ⟨-, behind⟩ := List.cons_eq_cons.mp split
        exact later front after behind

theorem decoders_agree_iff (s : Bytes) : urlDecode s = uriDecode s ↔ EscapesValid s := by
  induction s using escape_induction with
  | nil => simp [urlDecode, uriDecode, EscapesValid]
  | plain c rest percent ih =>
      rw [escapes_valid_cons, url_decode_default c rest percent, uri_decode_kept c rest fun same => absurd same percent]
      simp [percent, ih]
  | escape high low after first second ih =>
      have valid : startsHex (high :: low :: after) = true := by simp [startsHex, first, second]
      obtain ⟨url, uri⟩ := both_decode_digits high low after first second
      have highPlain := (hex_digit_plain high first).2
      have lowPlain := (hex_digit_plain low second).2
      rw [url, uri, escapes_valid_cons, escapes_valid_cons, escapes_valid_cons]
      simp [valid, highPlain, lowPlain, ih]
  | invalid rest valid ih =>
      rw [escapes_valid_cons]
      simp [valid, invalid_differs rest valid]

theorem decoders_differ : urlDecode ("%zz".toList.map byte) ≠ uriDecode ("%zz".toList.map byte) := by
  decide

end Libx.Url

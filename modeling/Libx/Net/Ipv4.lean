import Libx.Text
import Mathlib.Data.List.Induction

set_option autoImplicit false

namespace Libx.Net

-- sprintf with %d, for a value that is not negative.
def decimalText (value : Nat) : Text := Nat.toDigits 10 value

-- bytes[0] .. bytes[3] of ip_int_to_string.
def byteOf (ip : UInt32) : Fin 4 → UInt8
  | 0 => (ip &&& 0xFF).toUInt8
  | 1 => ((ip >>> 8) &&& 0xFF).toUInt8
  | 2 => ((ip >>> 16) &&& 0xFF).toUInt8
  | 3 => ((ip >>> 24) &&& 0xFF).toUInt8

def dotted (first second third fourth : Text) : Text := first ++ '.' :: (second ++ '.' :: (third ++ '.' :: fourth))

-- The text that sprintf leaves in buf, without its NUL.
def ipIntToString (ip : UInt32) (bigendian : Bool) : Text :=
  let bytes (i : Fin 4) : Text := decimalText (byteOf ip i).toNat
  if bigendian then dotted (bytes 0) (bytes 1) (bytes 2) (bytes 3) else dotted (bytes 3) (bytes 2) (bytes 1) (bytes 0)

-- *ip - '0' as tmp takes it: char is signed.
def charValue (c : Char) : UInt32 := (if c.toNat < 128 then .ofNat c.toNat else .ofNat c.toNat - 256) - .ofNat '0'.toNat

def readAddress (rtn tmp : UInt32) : Text → UInt32
  | [] => rtn + tmp
  | c :: rest => if c ≠ '.' then readAddress rtn (tmp * 10 + charValue c) rest else readAddress ((rtn + tmp) <<< 8) 0 rest

def ipStringToInt (ip_ : Text) : UInt32 := readAddress 0 0 (cString ip_)

def ofBytes (first second third fourth : UInt8) : UInt32 :=
  .ofNat (((first.toNat * 256 + second.toNat) * 256 + third.toNat) * 256 + fourth.toNat)

def reverseBytes (ip : UInt32) : UInt32 := ofBytes (byteOf ip 0) (byteOf ip 1) (byteOf ip 2) (byteOf ip 3)

structure Part where
  text : Text
  digits : ∀ c ∈ text, c.isDigit = true
  filled : text ≠ []
  leading : text.head? = some '0' → text = ['0']
  small : Nat.ofDigitChars 10 text 0 < 256

theorem byte_value (ip : UInt32) :
    (byteOf ip 0).toNat = ip.toNat % 256 ∧ (byteOf ip 1).toNat = ip.toNat / 256 % 256 ∧
      (byteOf ip 2).toNat = ip.toNat / 65536 % 256 ∧ (byteOf ip 3).toNat = ip.toNat / 16777216 % 256 := by
  have masked (n : UInt32) : (n &&& 0xFF).toUInt8.toNat = n.toNat % 256 := by
    rw [UInt32.toNat_toUInt8, UInt32.toNat_and]
    have mask : (0xFF : UInt32).toNat = 2 ^ 8 - 1 := rfl
    rw [mask, Nat.and_two_pow_sub_one_eq_mod]
    omega
  refine ⟨masked ip, ?_, ?_, ?_⟩
  · rw [byteOf, masked, UInt32.toNat_shiftRight]
    simp [Nat.shiftRight_eq_div_pow]
  · rw [byteOf, masked, UInt32.toNat_shiftRight]
    simp [Nat.shiftRight_eq_div_pow]
  · rw [byteOf, masked, UInt32.toNat_shiftRight]
    simp [Nat.shiftRight_eq_div_pow]

theorem of_bytes_value (first second third fourth : UInt8) :
    (ofBytes first second third fourth).toNat =
      ((first.toNat * 256 + second.toNat) * 256 + third.toNat) * 256 + fourth.toNat := by
  have one := first.toNat_lt
  have two := second.toNat_lt
  have three := third.toNat_lt
  have four := fourth.toNat_lt
  exact UInt32.toNat_ofNat_of_lt' (by rw [UInt32.size]; omega)

theorem byte_of_bytes (first second third fourth : UInt8) :
    byteOf (ofBytes first second third fourth) 0 = fourth ∧ byteOf (ofBytes first second third fourth) 1 = third ∧
      byteOf (ofBytes first second third fourth) 2 = second ∧ byteOf (ofBytes first second third fourth) 3 = first := by
  obtain ⟨zero, one, two, three⟩ := byte_value (ofBytes first second third fourth)
  rw [of_bytes_value] at zero one two three
  have first_ := first.toNat_lt
  have second_ := second.toNat_lt
  have third_ := third.toNat_lt
  have fourth_ := fourth.toNat_lt
  refine ⟨UInt8.toNat_inj.mp ?_, UInt8.toNat_inj.mp ?_, UInt8.toNat_inj.mp ?_, UInt8.toNat_inj.mp ?_⟩ <;> omega

theorem bytes_of (ip : UInt32) : ofBytes (byteOf ip 3) (byteOf ip 2) (byteOf ip 1) (byteOf ip 0) = ip := by
  obtain ⟨zero, one, two, three⟩ := byte_value ip
  have bound := ip.toNat_lt
  apply UInt32.toNat_inj.mp
  rw [of_bytes_value, zero, one, two, three]
  omega

theorem digit_code (c : Char) (digit : c.isDigit = true) : 48 ≤ c.toNat ∧ c.toNat ≤ 57 := by
  simp only [Char.isDigit, Bool.and_eq_true, decide_eq_true_eq] at digit
  exact digit

theorem digit_plain (c : Char) (digit : c.isDigit = true) : c ≠ '.' ∧ c ≠ '\x00' := by
  have range := digit_code c digit
  refine ⟨?_, ?_⟩ <;> rintro rfl <;> exact absurd range.1 (by decide)

theorem char_value_digit (c : Char) (digit : c.isDigit = true) : charValue c = .ofNat (c.toNat - '0'.toNat) := by
  have range := digit_code c digit
  have zero : '0'.toNat = 48 := rfl
  rw [charValue, if_pos (by omega), zero]
  exact (UInt32.ofNat_sub range.1).symm

theorem read_digits (digits rest : Text) (rtn : UInt32) (value : Nat) (clean : ∀ c ∈ digits, c.isDigit = true) :
    readAddress rtn (.ofNat value) (digits ++ rest) = readAddress rtn (.ofNat (Nat.ofDigitChars 10 digits value)) rest := by
  induction digits generalizing value with
  | nil => rfl
  | cons c digits ih =>
      have digit := clean c (by simp)
      have next : UInt32.ofNat value * 10 + charValue c = .ofNat (10 * value + (c.toNat - '0'.toNat)) := by
        rw [char_value_digit c digit, UInt32.ofNat_add, UInt32.ofNat_mul, UInt32.mul_comm]
        rfl
      rw [List.cons_append, readAddress, if_pos (digit_plain c digit).1, next, ih _ fun d member => clean d (by simp [member]),
        Nat.ofDigitChars_cons]

theorem read_dot (rtn value : Nat) (rest : Text) :
    readAddress (.ofNat rtn) (.ofNat value) ('.' :: rest) = readAddress (.ofNat ((rtn + value) * 256)) (.ofNat 0) rest := by
  have shifted : (UInt32.ofNat rtn + .ofNat value) <<< 8 = .ofNat ((rtn + value) * 256) := by
    apply UInt32.toNat_inj.mp
    rw [← UInt32.ofNat_add, UInt32.toNat_shiftLeft, UInt32.toNat_ofNat', UInt32.toNat_ofNat', Nat.shiftLeft_eq]
    have eight : (8 : UInt32).toNat % 32 = 8 := rfl
    rw [eight]
    omega
  rw [readAddress, if_neg (by simp), shifted]
  rfl

theorem read_dotted (first second third fourth : Text) (clean : ∀ c ∈ first ++ second ++ third ++ fourth, c.isDigit = true) :
    readAddress 0 0 (dotted first second third fourth) =
      .ofNat (((Nat.ofDigitChars 10 first 0 * 256 + Nat.ofDigitChars 10 second 0) * 256 + Nat.ofDigitChars 10 third 0) * 256 +
        Nat.ofDigitChars 10 fourth 0) := by
  simp only [List.mem_append] at clean
  have one := fun rest rtn => read_digits first rest rtn 0 fun c member => clean c (.inl (.inl (.inl member)))
  have two := fun rest rtn => read_digits second rest rtn 0 fun c member => clean c (.inl (.inl (.inr member)))
  have three := fun rest rtn => read_digits third rest rtn 0 fun c member => clean c (.inl (.inr member))
  have four := fun rtn => read_digits fourth [] rtn 0 fun c member => clean c (.inr member)
  have start : readAddress 0 0 (dotted first second third fourth) =
      readAddress (.ofNat 0) (.ofNat 0) (dotted first second third fourth) := rfl
  rw [List.append_nil] at four
  rw [start, dotted, one, read_dot, two, read_dot, three, read_dot, four, readAddress, Nat.zero_add, ← UInt32.ofNat_add]

theorem dotted_whole (first second third fourth : Text) (clean : ∀ c ∈ first ++ second ++ third ++ fourth, c.isDigit = true) :
    ipStringToInt (dotted first second third fourth) = readAddress 0 0 (dotted first second third fourth) := by
  rw [ipStringToInt, c_string_whole]
  intro member
  have digit (text : Text) (inside : ∀ c ∈ text, c.isDigit = true) : '\x00' ∉ text := fun member =>
    (digit_plain _ (inside _ member)).2 rfl
  simp only [List.mem_append] at clean
  simp only [dotted, List.mem_append, List.mem_cons] at member
  have one := digit first fun c member => clean c (.inl (.inl (.inl member)))
  have two := digit second fun c member => clean c (.inl (.inl (.inr member)))
  have three := digit third fun c member => clean c (.inl (.inr member))
  have four := digit fourth fun c member => clean c (.inr member)
  simp [one, two, three, four] at member

theorem decimal_text_digits (value : Nat) : ∀ c ∈ decimalText value, c.isDigit = true := fun _ member =>
  Nat.isDigit_of_mem_toDigits (by decide) (by decide) member

theorem written_digits (first second third fourth : Nat) :
    ∀ c ∈ decimalText first ++ decimalText second ++ decimalText third ++ decimalText fourth, c.isDigit = true := by
  intro c member
  simp only [List.mem_append] at member
  rcases member with ((one | two) | three) | four
  · exact decimal_text_digits first c one
  · exact decimal_text_digits second c two
  · exact decimal_text_digits third c three
  · exact decimal_text_digits fourth c four

theorem int_string_int (ip : UInt32) : ipStringToInt (ipIntToString ip false) = ip := by
  have clean := written_digits (byteOf ip 3).toNat (byteOf ip 2).toNat (byteOf ip 1).toNat (byteOf ip 0).toNat
  have text : ipIntToString ip false = dotted (decimalText (byteOf ip 3).toNat) (decimalText (byteOf ip 2).toNat)
      (decimalText (byteOf ip 1).toNat) (decimalText (byteOf ip 0).toNat) := rfl
  rw [text, dotted_whole _ _ _ _ clean, read_dotted _ _ _ _ clean]
  simp only [decimalText, Nat.ofDigitChars_ten_toDigits]
  exact bytes_of ip

-- buf has room for 15 characters and the NUL.
theorem buf_fits (ip : UInt32) (bigendian : Bool) : (ipIntToString ip bigendian).length < 16 := by
  have short (byte : UInt8) : (decimalText byte.toNat).length ≤ 3 := by
    have bound := byte.toNat_lt
    exact (Nat.length_toDigits_le_iff (by decide) (by decide)).mpr (by omega)
  have zero := short (byteOf ip 0)
  have one := short (byteOf ip 1)
  have two := short (byteOf ip 2)
  have three := short (byteOf ip 3)
  cases bigendian <;> simp only [ipIntToString, dotted, Bool.false_eq_true, if_true, if_false, List.length_append,
    List.length_cons] <;> omega

theorem string_reversed (ip : UInt32) : ipIntToString ip true = ipIntToString (reverseBytes ip) false := by
  obtain ⟨zero, one, two, three⟩ := byte_of_bytes (byteOf ip 0) (byteOf ip 1) (byteOf ip 2) (byteOf ip 3)
  rw [← reverseBytes] at zero one two three
  simp only [ipIntToString, zero, one, two, three, Bool.false_eq_true, if_true, if_false]

theorem digit_char_value (c : Char) (digit : c.isDigit = true) : (c.toNat - '0'.toNat).digitChar = c := by
  have range := digit_code c digit
  have table : ∀ code < 10, (Nat.digitChar code).toNat = 48 + code := by decide
  have zero : '0'.toNat = 48 := rfl
  apply Char.toNat_inj.mp
  rw [zero, table (c.toNat - 48) (by omega)]
  omega

theorem decimal_of_value (text : Text) (digits : ∀ c ∈ text, c.isDigit = true) (filled : text ≠ [])
    (leading : text.head? = some '0' → text = ['0']) : decimalText (Nat.ofDigitChars 10 text 0) = text := by
  induction text using List.reverseRecOn with
  | nil => exact absurd rfl filled
  | append_singleton front c ih =>
      have digit := digits c (by simp)
      have range := digit_code c digit
      have zero : '0'.toNat = 48 := rfl
      have value : Nat.ofDigitChars 10 (front ++ [c]) 0 = 10 * Nat.ofDigitChars 10 front 0 + (c.toNat - '0'.toNat) := by
        rw [Nat.ofDigitChars_append, Nat.ofDigitChars_cons, Nat.ofDigitChars_nil]
      rw [value, decimalText]
      cases front with
      | nil =>
          rw [Nat.ofDigitChars_nil, Nat.mul_zero, Nat.zero_add, Nat.toDigits_of_lt_base (by omega), digit_char_value c digit]
          rfl
      | cons first more =>
          have other : first ≠ '0' := by
            rintro rfl
            exact absurd (leading rfl) (by simp)
          have front := ih (fun d member => digits d (by simp at member ⊢; tauto)) (by simp) (by simp [other])
          have positive : Nat.ofDigitChars 10 (first :: more) 0 ≠ 0 := by
            intro none_
            rw [none_, decimalText, Nat.toDigits_zero] at front
            exact other (List.cons.inj front).1.symm
          rw [Nat.toDigits_of_base_le (by decide) (by omega)]
          have quotient : (10 * Nat.ofDigitChars 10 (first :: more) 0 + (c.toNat - '0'.toNat)) / 10 =
              Nat.ofDigitChars 10 (first :: more) 0 := by
            omega
          have remainder : (10 * Nat.ofDigitChars 10 (first :: more) 0 + (c.toNat - '0'.toNat)) % 10 = c.toNat - '0'.toNat := by
            omega
          rw [quotient, remainder, digit_char_value c digit]
          exact congrArg (· ++ [c]) front

def Part.byte (part : Part) : UInt8 := .ofNat (Nat.ofDigitChars 10 part.text 0)

theorem Part.byte_value (part : Part) : part.byte.toNat = Nat.ofDigitChars 10 part.text 0 :=
  UInt8.toNat_ofNat_of_lt' part.small

theorem Part.written (part : Part) : decimalText part.byte.toNat = part.text := by
  rw [part.byte_value, decimal_of_value part.text part.digits part.filled part.leading]

def quad (first second third fourth : Part) : Text := dotted first.text second.text third.text fourth.text

theorem quad_value (first second third fourth : Part) :
    ipStringToInt (quad first second third fourth) = ofBytes first.byte second.byte third.byte fourth.byte := by
  have clean : ∀ c ∈ first.text ++ second.text ++ third.text ++ fourth.text, c.isDigit = true := by
    intro c member
    simp only [List.mem_append] at member
    rcases member with ((one | two) | three) | four
    · exact first.digits c one
    · exact second.digits c two
    · exact third.digits c three
    · exact fourth.digits c four
  rw [quad, dotted_whole _ _ _ _ clean, read_dotted _ _ _ _ clean, ofBytes, first.byte_value, second.byte_value,
    third.byte_value, fourth.byte_value]

theorem string_int_string (first second third fourth : Part) :
    ipIntToString (ipStringToInt (quad first second third fourth)) false = quad first second third fourth := by
  obtain ⟨zero, one, two, three⟩ := byte_of_bytes first.byte second.byte third.byte fourth.byte
  rw [quad_value]
  simp only [ipIntToString, zero, one, two, three, Part.written, Bool.false_eq_true, if_false, quad]

theorem ip_text_round_trips :
    (∀ ip, ipStringToInt (ipIntToString ip false) = ip) ∧
      (∀ ip, ipIntToString ip true = ipIntToString (reverseBytes ip) false) ∧
      ∀ first second third fourth : Part,
        ipIntToString (ipStringToInt (quad first second third fourth)) false = quad first second third fourth :=
  ⟨int_string_int, string_reversed, string_int_string⟩

end Libx.Net

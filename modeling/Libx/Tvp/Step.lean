import Libx.Lib.Fallible
import Libx.Tvp.TagTable
import Mathlib.Tactic.Ring

set_option autoImplicit false

namespace Libx.Tvp

abbrev Bytes := List UInt8

inductive ParseError where
  | equalMissing
  | unterminated
  | emptyTag
deriving DecidableEq, Repr

inductive Fault where
  | outOfTable
  | outOfBuffer
  | noSlot
  | assertion
  | badShift
  | fuel
deriving DecidableEq, Repr

structure TVPair where
  tag : Int
  content : Nat
  len : Nat
deriving DecidableEq, Repr

def charInt (c : UInt8) : Int := if c.toNat < 128 then c.toNat else c.toNat - 256

def numeric : IntClipper where
  acceptedTags := [48, 49, 50, 51, 52, 53, 54, 55, 56, 57]
  nonempty := by simp
  ints := by decide

-- The table ints[16][10]: row r holds the multiples of 10^r.
def ints (row : Nat) (column : Int) : Except Fault Int :=
  if row < 16 ∧ 0 ≤ column ∧ column < 10 then .ok (column * 10 ^ row) else .error .outOfTable

def fatoi : Bytes → Except Fault Int
  | [] => .ok 0
  | c :: rest => do
      let here ← ints rest.length (charInt c - 48)
      let more ← fatoi rest
      return here + more

def cut (stop : UInt8) : Bytes → Option (Bytes × Bytes)
  | [] => none
  | c :: rest => if c = stop then some ([], rest) else (cut stop rest).map fun split => (c :: split.1, split.2)

def tagnumcheck (text : Bytes) : Nat :=
  text.foldl (fun check c => check * numeric.mapTag2Index (charInt c) % 2 ^ 64) 1

def readTag (text : Bytes) : Except Fault Int :=
  if tagnumcheck text ≠ 0 then (fatoi text).map int else .ok 0

-- step(current_, end_, SEP) on the bytes from current_ to end_, and the new
-- current_; the two versions of it differ in how they read the tag.
def stepWith (readTag : Bytes → Except Fault Int) (sep : UInt8) (current : Nat) (rest : Bytes) :
    Except Fault (Except ParseError (TVPair × Nat)) :=
  match cut 61 rest with
  | none => .ok (.error .equalMissing)
  | some (text, rest) => do
      let tag ← readTag text
      match cut sep rest with
      | none => return .error .unterminated
      | some (value, _) =>
          let content := current + text.length + 1
          if value = [] then return .error .emptyTag
          else return .ok (⟨tag, content, value.length⟩, content + value.length + 1)

def step (sep : UInt8) (current : Nat) (rest : Bytes) : Except Fault (Except ParseError (TVPair × Nat)) :=
  stepWith readTag sep current rest

def isDigit (c : UInt8) : Bool := 48 ≤ c.toNat ∧ c.toNat ≤ 57

def decimal (text : Bytes) : Nat := text.foldl (fun value c => 10 * value + (c.toNat - 48)) 0

def numericTag (text : Bytes) : Option Nat := if text ≠ [] ∧ text.all isDigit then some (decimal text) else none

theorem cut_here (stop : UInt8) (front back : Bytes) (clean : stop ∉ front) :
    cut stop (front ++ stop :: back) = some (front, back) := by
  induction front with
  | nil => simp [cut]
  | cons c front ih =>
      simp only [List.mem_cons, not_or] at clean
      rw [List.cons_append, cut, if_neg (Ne.symm clean.1), ih clean.2]
      rfl

theorem cut_none (stop : UInt8) (text : Bytes) (clean : stop ∉ text) : cut stop text = none := by
  induction text with
  | nil => rfl
  | cons c rest ih =>
      simp only [List.mem_cons, not_or] at clean
      rw [cut, if_neg (Ne.symm clean.1), ih clean.2]
      rfl

theorem step_field (readTag : Bytes → Except Fault Int) (sep : UInt8) (current : Nat) (text value back : Bytes) (tag : Int)
    (clean : 61 ∉ text) (read : readTag text = .ok tag) (inside : sep ∉ value) (filled : value ≠ []) :
    stepWith readTag sep current (text ++ 61 :: (value ++ sep :: back)) =
      .ok (.ok (⟨tag, current + text.length + 1, value.length⟩, current + text.length + 1 + value.length + 1)) := by
  simp [stepWith, cut_here 61 text _ clean, read, cut_here sep value back inside, filled]

theorem digit_range (c : UInt8) : isDigit c = true ↔ 48 ≤ c.toNat ∧ c.toNat ≤ 57 := by simp [isDigit]

theorem char_int_digit (c : UInt8) (digit : isDigit c = true) : charInt c = c.toNat := by
  have range := (digit_range c).mp digit
  rw [charInt, if_pos (by omega)]

theorem numeric_mem (tag : Nat) : tag ∈ numeric.acceptedTags ↔ 48 ≤ tag ∧ tag ≤ 57 := by
  simp only [numeric, List.mem_cons, List.not_mem_nil, or_false]
  omega

theorem numeric_digit (c : UInt8) (digit : isDigit c = true) :
    0 < numeric.mapTag2Index (charInt c) ∧ numeric.mapTag2Index (charInt c) ≤ 10 := by
  rw [char_int_digit c digit]
  obtain ⟨present, few⟩ := numeric.index_accepted c.toNat ((numeric_mem _).mpr ((digit_range c).mp digit))
  exact ⟨Nat.pos_of_ne_zero present, few⟩

theorem char_fits (c : UInt8) : numeric.Fits (charInt c) := by
  have size := c.toNat_lt
  rw [IntClipper.Fits, show numeric.tagMin = 48 from rfl, charInt]
  split <;> omega

theorem numeric_other (c : UInt8) (other : isDigit c = false) : numeric.mapTag2Index (charInt c) = 0 := by
  refine numeric.index_zero _ (char_fits c) fun tag accepted same => ?_
  have range := (numeric_mem tag).mp accepted
  have size := c.toNat_lt
  have digit : isDigit c = true := by
    rw [digit_range]
    rw [charInt] at same
    split at same <;> omega
  simp [digit] at other

theorem check_zero (text : Bytes) : text.foldl (fun check c => check * numeric.mapTag2Index (charInt c) % 2 ^ 64) 0 = 0 := by
  induction text with
  | nil => rfl
  | cons c rest ih => simpa using ih

theorem check_other (text : Bytes) (check : Nat) (other : text.all isDigit = false) :
    text.foldl (fun check c => check * numeric.mapTag2Index (charInt c) % 2 ^ 64) check = 0 := by
  induction text generalizing check with
  | nil => simp at other
  | cons c rest ih =>
      rw [List.foldl_cons]
      by_cases digit : isDigit c = true
      · exact ih _ (by simpa [digit] using other)
      · rw [numeric_other c (by simpa using digit), Nat.mul_zero, Nat.zero_mod, check_zero]

-- Every digit multiplies the product by 1 to 10, so a short text cannot wrap it to 0.
theorem check_digits (text : Bytes) (check : Nat) (digits : text.all isDigit = true) (positive : 0 < check)
    (small : check * 10 ^ text.length < 2 ^ 64) :
    0 < text.foldl (fun check c => check * numeric.mapTag2Index (charInt c) % 2 ^ 64) check := by
  induction text generalizing check with
  | nil => exact positive
  | cons c rest ih =>
      simp only [List.all_cons, Bool.and_eq_true] at digits
      obtain ⟨low, high⟩ := numeric_digit c digits.1
      rw [List.length_cons, Nat.pow_succ] at small
      have power : 0 < 10 ^ rest.length := Nat.pos_of_ne_zero (by simp)
      have grown : check * numeric.mapTag2Index (charInt c) * 10 ^ rest.length < 2 ^ 64 :=
        calc check * numeric.mapTag2Index (charInt c) * 10 ^ rest.length
            ≤ check * 10 * 10 ^ rest.length := Nat.mul_le_mul_right _ (Nat.mul_le_mul_left check high)
          _ = check * (10 ^ rest.length * 10) := by rw [Nat.mul_assoc, Nat.mul_comm 10]
          _ < 2 ^ 64 := small
      have unwrapped : check * numeric.mapTag2Index (charInt c) < 2 ^ 64 :=
        lt_of_le_of_lt (Nat.le_mul_of_pos_right _ power) grown
      rw [List.foldl_cons, Nat.mod_eq_of_lt unwrapped]
      exact ih _ digits.2 (Nat.mul_pos positive low) grown

theorem decimal_from (text : Bytes) (value : Nat) :
    text.foldl (fun value c => 10 * value + (c.toNat - 48)) value = value * 10 ^ text.length + decimal text := by
  induction text generalizing value with
  | nil => simp [decimal]
  | cons c rest ih =>
      have whole : decimal (c :: rest) = (10 * 0 + (c.toNat - 48)) * 10 ^ rest.length + decimal rest := ih _
      rw [List.foldl_cons, ih, whole, List.length_cons]
      ring

theorem decimal_cons (c : UInt8) (rest : Bytes) : decimal (c :: rest) = (c.toNat - 48) * 10 ^ rest.length + decimal rest := by
  rw [decimal, List.foldl_cons, decimal_from, Nat.mul_zero, Nat.zero_add]

theorem fatoi_digits (text : Bytes) (digits : text.all isDigit = true) (short : text.length ≤ 16) :
    fatoi text = .ok (decimal text) := by
  induction text with
  | nil => rfl
  | cons c rest ih =>
      simp only [List.all_cons, Bool.and_eq_true] at digits
      simp only [List.length_cons] at short
      have range := (digit_range c).mp digits.1
      have column : ints rest.length (charInt c - 48) = .ok ((c.toNat - 48) * 10 ^ rest.length) := by
        rw [ints, char_int_digit c digits.1, if_pos ⟨by omega, by omega, by omega⟩]
      rw [fatoi, column, ih digits.2 (by omega), decimal_cons]
      push_cast [Nat.cast_sub range.1]
      rfl

theorem decimal_lt (text : Bytes) (digits : text.all isDigit = true) : decimal text < 10 ^ text.length := by
  induction text with
  | nil => simp [decimal]
  | cons c rest ih =>
      simp only [List.all_cons, Bool.and_eq_true] at digits
      have range := (digit_range c).mp digits.1
      have later := ih digits.2
      rw [decimal_cons, List.length_cons, Nat.pow_succ]
      have digit : (c.toNat - 48) * 10 ^ rest.length ≤ 9 * 10 ^ rest.length := Nat.mul_le_mul_right _ (by omega)
      omega

def Readable (text : Bytes) : Prop := text.all isDigit = true → text.length ≤ 16 ∧ decimal text < 2 ^ 31

theorem readable_short (text : Bytes) (short : text.length ≤ 9) : Readable text := by
  intro digits
  refine ⟨by omega, ?_⟩
  have bound := decimal_lt text digits
  have power : 10 ^ text.length ≤ 10 ^ 9 := Nat.pow_le_pow_right (by decide) short
  omega

theorem read_tag_readable (text : Bytes) (readable : Readable text) : readTag text = .ok ((numericTag text).getD 0 : Nat) := by
  by_cases digits : text.all isDigit = true
  · obtain ⟨short, small⟩ := readable digits
    have power : 10 ^ text.length ≤ 10 ^ 16 := Nat.pow_le_pow_right (by decide) short
    have check := check_digits text 1 digits Nat.one_pos (by omega)
    have value : (numericTag text).getD 0 = decimal text := by
      by_cases empty : text = []
      · simp [numericTag, empty, decimal]
      · rw [numericTag, if_pos ⟨empty, digits⟩, Option.getD_some]
    rw [readTag, tagnumcheck, if_pos (by omega), fatoi_digits text digits short, value]
    exact congrArg Except.ok (IntClipper.int_of_range _ (by omega) (by omega))
  · have check := check_other text 1 (by simpa using digits)
    rw [readTag, tagnumcheck, check, if_neg (by simp), numericTag, if_neg fun both => digits both.2]
    rfl

end Libx.Tvp

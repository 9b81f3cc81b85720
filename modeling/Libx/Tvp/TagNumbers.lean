import Libx.Tvp.Step
import Mathlib.Algebra.BigOperators.Group.List.Basic

set_option autoImplicit false

namespace Libx.Tvp

def digitProduct (text : Bytes) : Nat := (text.map fun c => c.toNat - 47).prod

def Wraps (text : Bytes) : Prop := 2 ^ 64 ∣ digitProduct text

instance (text : Bytes) : Decidable (Wraps text) := inferInstanceAs (Decidable (2 ^ 64 ∣ digitProduct text))

def digitsField (sep : UInt8) (text value back : Bytes) : Bytes := text ++ 61 :: (value ++ sep :: back)

def TagExact (clipper : IntClipper) (sep : UInt8) (current : Nat) (text value back : Bytes) : Prop :=
  ∃ outcome, step sep current (digitsField sep text value back) = .ok outcome ∧
    ∀ p next, outcome = .ok (p, next) → p.tag = decimal text ∨ clipper.mapTag2Index p.tag = 0

def ReportedAs (text : Bytes) (tag : Int) : Prop :=
  ∃ sep current value back p next, sep ∉ value ∧ step sep current (digitsField sep text value back) = .ok (.ok (p, next)) ∧ p.tag = tag

-- The last row of the table holds the tags of 16 digits.
def InTable (text : Bytes) : Prop := text.length ≤ 16 ∨ Wraps text

def Apart (clipper : IntClipper) (text : Bytes) : Prop :=
  if text.length ≤ 16 then ∀ tag ∈ clipper.acceptedTags, decimal text % 2 ^ 32 = tag → decimal text = tag
  else 0 ∉ clipper.acceptedTags

structure PlainNumber (text : Bytes) : Prop where
  digits : text.all isDigit = true
  filled : text ≠ []
  leading : text.head? = some 48 → text = [48]

structure Confused (one other : Bytes) : Prop where
  short : one.length ≤ 16 ∧ other.length ≤ 16
  different : decimal one ≠ decimal other
  number : decimal one % 2 ^ 32 ≠ 0
  same : decimal one % 2 ^ 32 = decimal other % 2 ^ 32

theorem numeric_index (c : UInt8) (digit : isDigit c = true) : numeric.mapTag2Index (charInt c) = c.toNat - 47 := by
  have table : ∀ code < 58, 48 ≤ code → numeric.mapTag2Index (code : Nat) = code - 47 := by decide
  have range := (digit_range c).mp digit
  rw [char_int_digit c digit]
  exact table c.toNat (by omega) range.1

theorem check_product (text : Bytes) (digits : text.all isDigit = true) (check : Nat) (small : check < 2 ^ 64) :
    text.foldl (fun check c => check * numeric.mapTag2Index (charInt c) % 2 ^ 64) check = check * digitProduct text % 2 ^ 64 := by
  induction text generalizing check with
  | nil => rw [List.foldl_nil, digitProduct, List.map_nil, List.prod_nil, Nat.mul_one, Nat.mod_eq_of_lt small]
  | cons c rest ih =>
      simp only [List.all_cons, Bool.and_eq_true] at digits
      have whole : digitProduct (c :: rest) = (c.toNat - 47) * digitProduct rest := by simp [digitProduct]
      rw [List.foldl_cons, ih digits.2 _ (Nat.mod_lt _ (by decide)), numeric_index c digits.1, whole, Nat.mod_mul_mod,
        Nat.mul_assoc]

theorem check_wraps (text : Bytes) (digits : text.all isDigit = true) : tagnumcheck text = 0 ↔ Wraps text := by
  rw [tagnumcheck, check_product text digits 1 (by decide), Nat.one_mul, Wraps, Nat.dvd_iff_mod_eq_zero]

theorem short_no_wrap (text : Bytes) (digits : text.all isDigit = true) (short : text.length ≤ 16) : ¬ Wraps text := by
  have power : 10 ^ text.length ≤ 10 ^ 16 := Nat.pow_le_pow_right (by decide) short
  have check := check_digits text 1 digits Nat.one_pos (by omega)
  rw [← check_wraps text digits, tagnumcheck]
  omega

theorem fatoi_long (text : Bytes) (long : 16 < text.length) : fatoi text = .error .outOfTable := by
  cases text with
  | nil => simp at long
  | cons c rest =>
      rw [List.length_cons] at long
      rw [fatoi, ints, if_neg (by omega)]
      rfl

theorem read_tag_short (text : Bytes) (digits : text.all isDigit = true) (short : text.length ≤ 16) :
    readTag text = .ok (int (decimal text)) := by
  rw [readTag, if_pos (mt (check_wraps text digits).mp (short_no_wrap text digits short)), fatoi_digits text digits short]
  rfl

theorem read_tag_wraps (text : Bytes) (digits : text.all isDigit = true) (wraps : Wraps text) : readTag text = .ok 0 := by
  rw [readTag, if_neg (not_not.mpr ((check_wraps text digits).mpr wraps))]

theorem read_tag_long (text : Bytes) (digits : text.all isDigit = true) (outside : ¬ InTable text) :
    readTag text = .error .outOfTable := by
  rw [InTable, not_or] at outside
  rw [readTag, if_pos (mt (check_wraps text digits).mp outside.2), fatoi_long text (by omega)]
  rfl

theorem digits_clean (text : Bytes) (digits : text.all isDigit = true) : 61 ∉ text := by
  intro member
  exact absurd (List.all_eq_true.mp digits 61 member) (by decide)

theorem step_read (sep : UInt8) (current : Nat) (text value back : Bytes) (digits : text.all isDigit = true) (tag : Int)
    (read : readTag text = .ok tag) (inside : sep ∉ value) :
    step sep current (digitsField sep text value back) =
      .ok (if value = [] then .error .emptyTag
        else .ok (⟨tag, current + text.length + 1, value.length⟩, current + text.length + 1 + value.length + 1)) := by
  have clean := digits_clean text digits
  by_cases empty : value = []
  · subst empty
    have behind : cut sep (sep :: back) = some ([], back) := cut_here sep [] back inside
    simp [step, stepWith, digitsField, cut_here 61 text _ clean, read, behind]
  · rw [if_neg empty]
    exact step_field readTag sep current text value back tag clean read inside empty

theorem step_long (sep : UInt8) (current : Nat) (text value back : Bytes) (digits : text.all isDigit = true)
    (outside : ¬ InTable text) : step sep current (digitsField sep text value back) = .error .outOfTable := by
  rw [step, stepWith, digitsField, cut_here 61 text _ (digits_clean text digits)]
  simp only [read_tag_long text digits outside]
  rfl

theorem int_eq_iff (value tag : Nat) (small : tag < 2 ^ 31) : int value = tag ↔ value % 2 ^ 32 = tag := by
  rw [int, Int.bmod_def]
  split <;> omega

theorem int_congruent (one other : Nat) : int one = int other ↔ one % 2 ^ 32 = other % 2 ^ 32 := by
  rw [int, int, Int.bmod_def, Int.bmod_def]
  split <;> split <;> omega

theorem narrowed_exact (clipper : IntClipper) (value : Nat) :
    (int value = value ∨ clipper.mapTag2Index (int value) = 0) ↔
      ∀ tag ∈ clipper.acceptedTags, value % 2 ^ 32 = tag → value = tag := by
  constructor
  · intro reported tag accepted residue
    have small := clipper.ints tag accepted
    have narrowed := (int_eq_iff value tag (by omega)).mpr residue
    rw [narrowed] at reported
    cases reported with
    | inl same => exact_mod_cast same.symm
    | inr absent => exact absurd absent (clipper.index_accepted tag accepted).1
  · intro apart
    by_cases known : ∃ tag ∈ clipper.acceptedTags, (tag : Int) = int value
    · obtain ⟨tag, accepted, same⟩ := known
      have small := clipper.ints tag accepted
      have holds := apart tag accepted ((int_eq_iff value tag (by omega)).mp same.symm)
      left
      rw [← same, holds]
    · obtain ⟨low, high⟩ := int_bounds value
      exact .inr (clipper.index_int _ low high fun tag accepted same => known ⟨tag, accepted, same⟩)

theorem zero_product (text : Bytes) (digits : text.all isDigit = true) (zero : decimal text = 0) : digitProduct text = 1 := by
  induction text with
  | nil => rfl
  | cons c rest ih =>
      simp only [List.all_cons, Bool.and_eq_true] at digits
      have range := (digit_range c).mp digits.1
      have whole : digitProduct (c :: rest) = (c.toNat - 47) * digitProduct rest := by simp [digitProduct]
      have power : 0 < 10 ^ rest.length := Nat.pow_pos (by decide)
      rw [decimal_cons, Nat.add_eq_zero_iff, Nat.mul_eq_zero] at zero
      have first : c.toNat - 48 = 0 := zero.1.resolve_right (by omega)
      rw [whole, ih digits.2 zero.2, Nat.mul_one]
      omega

theorem wraps_positive (text : Bytes) (digits : text.all isDigit = true) (wraps : Wraps text) : decimal text ≠ 0 := by
  intro zero
  rw [Wraps, zero_product text digits zero] at wraps
  exact absurd wraps (by decide)

theorem wrapped_exact (clipper : IntClipper) (value : Nat) (positive : value ≠ 0) :
    ((0 : Int) = value ∨ clipper.mapTag2Index 0 = 0) ↔ 0 ∉ clipper.acceptedTags := by
  constructor
  · intro reported accepted
    cases reported with
    | inl same => exact positive (by exact_mod_cast same.symm)
    | inr absent => exact (clipper.index_accepted 0 accepted).1 absent
  · intro foreign
    refine .inr (clipper.index_int 0 (by decide) (by decide) fun tag accepted same => foreign ?_)
    rwa [Int.natCast_eq_zero.mp same] at accepted

theorem tag_exact_iff (clipper : IntClipper) (sep : UInt8) (current : Nat) (text value back : Bytes)
    (digits : text.all isDigit = true) (inside : sep ∉ value) :
    TagExact clipper sep current text value back ↔ InTable text ∧ (value = [] ∨ Apart clipper text) := by
  by_cases table : InTable text
  · obtain ⟨tag, read, holds⟩ : ∃ tag, readTag text = .ok tag ∧
        ((tag = decimal text ∨ clipper.mapTag2Index tag = 0) ↔ Apart clipper text) := by
      rw [Apart]
      by_cases short : text.length ≤ 16
      · rw [if_pos short]
        exact ⟨_, read_tag_short text digits short, narrowed_exact clipper _⟩
      · have wraps := table.resolve_left short
        rw [if_neg short]
        refine ⟨0, read_tag_wraps text digits wraps, ?_⟩
        exact wrapped_exact clipper (decimal text) (wraps_positive text digits wraps)
    rw [TagExact, step_read sep current text value back digits tag read inside]
    by_cases empty : value = []
    · simp [empty, table]
    · simp only [empty, if_false, false_or, table, true_and, ← holds]
      constructor
      · rintro ⟨outcome, same, reported⟩
        exact reported _ _ (Except.ok.inj same).symm
      · intro reported
        refine ⟨_, rfl, fun p next same => ?_⟩
        obtain ⟨rfl, -⟩ := Prod.mk.inj (Except.ok.inj same)
        exact reported
  · rw [TagExact, step_long sep current text value back digits table]
    simp [table]

theorem decimal_same_length (one other : Bytes) (oneDigits : one.all isDigit = true) (otherDigits : other.all isDigit = true)
    (lengths : one.length = other.length) (same : decimal one = decimal other) : one = other := by
  induction one generalizing other with
  | nil => exact (List.length_eq_zero_iff.mp lengths.symm).symm
  | cons c one ih =>
      cases other with
      | nil => simp at lengths
      | cons d other =>
          simp only [List.all_cons, Bool.and_eq_true] at oneDigits otherDigits
          have oneRange := (digit_range c).mp oneDigits.1
          have otherRange := (digit_range d).mp otherDigits.1
          have oneBound := decimal_lt one oneDigits.2
          have otherBound := decimal_lt other otherDigits.2
          have tails : one.length = other.length := by simpa using lengths
          rw [decimal_cons, decimal_cons, tails] at same
          rw [tails] at oneBound
          have rests := congrArg (· % 10 ^ other.length) same
          simp only [Nat.mul_add_mod_of_lt oneBound, Nat.mul_add_mod_of_lt otherBound] at rests
          have rest := ih other oneDigits.2 otherDigits.2 tails rests
          rw [rests] at same
          have first := Nat.eq_of_mul_eq_mul_right (Nat.pow_pos (by decide)) (Nat.add_right_cancel same)
          rw [rest, UInt8.toNat_inj.mp (by omega : c.toNat = d.toNat)]

theorem decimal_leading (c : UInt8) (rest : Bytes) (digit : isDigit c = true) (leading : c ≠ 48) :
    10 ^ rest.length ≤ decimal (c :: rest) := by
  have range := (digit_range c).mp digit
  have other : c.toNat ≠ 48 := fun zero => leading (UInt8.toNat_inj.mp zero)
  rw [decimal_cons]
  calc 10 ^ rest.length = 1 * 10 ^ rest.length := (Nat.one_mul _).symm
    _ ≤ (c.toNat - 48) * 10 ^ rest.length := Nat.mul_le_mul_right _ (by omega)
    _ ≤ (c.toNat - 48) * 10 ^ rest.length + decimal rest := Nat.le_add_right _ _

theorem decimal_inj (one other : Bytes) (onePlain : PlainNumber one) (otherPlain : PlainNumber other)
    (same : decimal one = decimal other) : one = other := by
  have shorter (left right : Bytes) (leftPlain : PlainNumber left) (rightPlain : PlainNumber right)
      (equal : decimal left = decimal right) : right.length ≤ left.length := by
    by_contra longer
    cases right with
    | nil => simp at longer
    | cons c rest =>
        have filled := List.length_pos_of_ne_nil leftPlain.filled
        rw [List.length_cons] at longer
        have leading : c ≠ 48 := by
          rintro rfl
          have alone := (List.cons.inj (rightPlain.leading rfl)).2
          rw [alone, List.length_nil] at longer
          omega
        have digits := rightPlain.digits
        rw [List.all_cons, Bool.and_eq_true] at digits
        have least := decimal_leading c rest digits.1 leading
        have most := decimal_lt left leftPlain.digits
        have power : 10 ^ left.length ≤ 10 ^ rest.length := Nat.pow_le_pow_right (by decide) (by omega)
        omega
  have lengths := Nat.le_antisymm (shorter other one otherPlain onePlain same.symm) (shorter one other onePlain otherPlain same)
  exact decimal_same_length one other onePlain.digits otherPlain.digits lengths same

theorem reported_iff (text : Bytes) (digits : text.all isDigit = true) (tag : Int) :
    ReportedAs text tag ↔ readTag text = .ok tag := by
  constructor
  · rintro ⟨sep, current, value, back, p, next, inside, run, rfl⟩
    cases read : readTag text with
    | error fault =>
        rw [step, stepWith, digitsField, cut_here 61 text _ (digits_clean text digits)] at run
        simp [read] at run
    | ok tag =>
        rw [step_read sep current text value back digits tag read inside] at run
        by_cases empty : value = []
        · simp [empty] at run
        · rw [if_neg empty] at run
          obtain ⟨rfl, -⟩ := Prod.mk.inj (Except.ok.inj (Except.ok.inj run))
          rfl
  · intro read
    exact ⟨1, 0, [65], [], _, _, by decide, step_read 1 0 text [65] [] digits tag read (by decide), rfl⟩

theorem reported_short (text : Bytes) (digits : text.all isDigit = true) (tag : Int) (present : tag ≠ 0) :
    ReportedAs text tag ↔ text.length ≤ 16 ∧ int (decimal text) = tag := by
  rw [reported_iff text digits]
  by_cases short : text.length ≤ 16
  · simp [read_tag_short text digits short, short]
  · by_cases wraps : Wraps text
    · simp [read_tag_wraps text digits wraps, short, Ne.symm present]
    · simp [read_tag_long text digits (by simp [InTable, short, wraps]), short]

theorem confused_iff (one other : Bytes) (onePlain : PlainNumber one) (otherPlain : PlainNumber other) :
    (∀ tag, tag ≠ 0 → ReportedAs one tag → ReportedAs other tag → one = other) ↔ ¬ Confused one other := by
  have zero (value : Nat) : int value = 0 ↔ value % 2 ^ 32 = 0 := by exact_mod_cast int_eq_iff value 0 (by decide)
  constructor
  · rintro apart ⟨short, different, number, same⟩
    have present := mt (zero (decimal one)).mp number
    have equal := apart _ present ((reported_short one onePlain.digits _ present).mpr ⟨short.1, rfl⟩)
      ((reported_short other otherPlain.digits _ present).mpr ⟨short.2, ((int_congruent _ _).mpr same).symm⟩)
    exact different (congrArg decimal equal)
  · intro clear tag present oneReported otherReported
    obtain ⟨oneShort, oneTag⟩ := (reported_short one onePlain.digits tag present).mp oneReported
    obtain ⟨otherShort, otherTag⟩ := (reported_short other otherPlain.digits tag present).mp otherReported
    by_contra different
    refine clear ⟨⟨oneShort, otherShort⟩, fun same => different (decimal_inj one other onePlain otherPlain same), ?_, ?_⟩
    · rw [Ne, ← zero, oneTag]
      exact present
    · rw [← int_congruent, oneTag, otherTag]

theorem tag_numbers_iff (clipper : IntClipper) (sep : UInt8) (current : Nat) (text value back : Bytes) (_filled : text ≠ [])
    (digits : text.all isDigit = true) (inside : sep ∉ value) :
    (TagExact clipper sep current text value back ↔ InTable text ∧ (value = [] ∨ Apart clipper text)) ∧
      ∀ other, PlainNumber text → PlainNumber other →
        ((∀ tag, tag ≠ 0 → ReportedAs text tag → ReportedAs other tag → text = other) ↔ ¬ Confused text other) :=
  ⟨tag_exact_iff clipper sep current text value back digits inside, confused_iff text⟩

theorem tag_numbers_iff_eight :
    let clipper : IntClipper := ⟨[8, 9, 35], by simp, by decide⟩
    (TagExact clipper 1 0 [56] [65] [] ↔ InTable [56] ∧ (([65] : Bytes) = [] ∨ Apart clipper [56])) ∧
      ∀ other, PlainNumber [56] → PlainNumber other →
        ((∀ tag, tag ≠ 0 → ReportedAs [56] tag → ReportedAs other tag → [56] = other) ↔ ¬ Confused [56] other) :=
  tag_numbers_iff ⟨[8, 9, 35], by simp, by decide⟩ 1 0 [56] [65] [] (by decide) (by decide) (by decide)

-- 4294967304 is 2^32 + 8; the other text has 17 digits.
theorem tag_numbers_wrap :
    let clipper : IntClipper := ⟨[8, 9, 35], by simp, by decide⟩
    let wide : Bytes := [52, 50, 57, 52, 57, 54, 55, 51, 48, 52]
    let long : Bytes := [49, 48, 48, 48, 48, 48, 48, 48, 48, 48, 48, 48, 48, 48, 48, 48, 56]
    step 1 0 (digitsField 1 wide [65] []) = .ok (.ok (⟨8, 11, 1⟩, 13)) ∧ decimal wide = 4294967304 ∧
      clipper.mapTag2Index 8 = 1 ∧ step 1 0 (digitsField 1 [56] [65] []) = .ok (.ok (⟨8, 2, 1⟩, 4)) ∧
      step 1 0 (digitsField 1 long [65] []) = .error .outOfTable := by
  refine ⟨rfl, by decide, by decide, rfl, rfl⟩

end Libx.Tvp

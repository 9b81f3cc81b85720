import Libx.Argon2.Context
import Libx.Lib.Decimal

set_option autoImplicit false

namespace Libx.Argon2

open Decimal Fallible

def ulongMax : Nat := 2 ^ 64 - 1
def uint32Max : Nat := 0xFFFFFFFF

-- None is the result NULL.
def decimalLoop : Bytes → Nat → Option (Nat × Bytes)
  | [], acc => some (acc, [])
  | c :: str, acc =>
      if c < 48 ∨ 57 < c then some (acc, c :: str)
      else if ulongMax / 10 < acc then none
      else if ulongMax - acc * 10 < c.toNat - 48 then none
      else decimalLoop str (acc * 10 + (c.toNat - 48))

def decodeDecimal (orig : Bytes) : Option (Nat × Bytes) :=
  match decimalLoop orig 0 with
  | none => none
  | some (acc, str) =>
      if str.length = orig.length ∨ orig.head? = some 48 ∧ str.length + 1 ≠ orig.length then none else some (acc, str)

-- The macros of the decoder, each with the rest of the text it leaves.
def CC (text : Bytes) (str : Bytes) : Except ErrorCode Bytes :=
  if text.isPrefixOf str then .ok (str.drop text.length) else .error .decodingFail

def decimalU32 (str : Bytes) : Except ErrorCode (UInt32 × Bytes) :=
  match decodeDecimal str with
  | none => .error .decodingFail
  | some (x, str) => if uint32Max < x then .error .decodingFail else .ok (.ofNat x, str)

def BIN (maxLen : Nat) (str : Bytes) : Except ErrorCode (Bytes × Bytes) :=
  match fromBase64 maxLen str with
  | none => .error .decodingFail
  | some (bin, str) => if uint32Max < bin.length then .error .decodingFail else .ok (bin, str)

def CCOpt (text : Bytes) (otherwise : UInt32) (str : Bytes) : Except ErrorCode (UInt32 × Bytes) :=
  if text.isPrefixOf str then decimalU32 (str.drop text.length) else .ok (otherwise, str)

def Buffer.fill (buffer : Buffer) (bin : Bytes) : Buffer :=
  ⟨buffer.data.map fun data => bin ++ data.drop bin.length, .ofNat bin.length⟩

def decodeString (ctx : Context) (str : Bytes) (type : Argon2Type) : Except ErrorCode Context := do
  let str ← CC (bytesOf "$") str
  let str ← CC (type2string type false) str
  let (version, str) ← CCOpt (bytesOf "$v=") version10 str
  let str ← CC (bytesOf "$m=") str
  let (mCost, str) ← decimalU32 str
  let str ← CC (bytesOf ",t=") str
  let (tCost, str) ← decimalU32 str
  let str ← CC (bytesOf ",p=") str
  let (lanes, str) ← decimalU32 str
  let str ← CC (bytesOf "$") str
  let (salt, str) ← BIN ctx.salt.len.toNat str
  let str ← CC (bytesOf "$") str
  let (out, str) ← BIN ctx.out.len.toNat str
  let ctx := { ctx with
    version := version, mCost := mCost, tCost := tCost, lanes := lanes, threads := lanes
    salt := ctx.salt.fill salt, out := ctx.out.fill out
    secret := .null, ad := .null, allocateCbk := false, freeCbk := false, flags := defaultFlags }
  validateInputs ctx
  if str = [] then pure ctx else throw .decodingFail

-- The macros of the encoder: what is written so far, and how much space is left.
def SS (str : Bytes) (dst : Bytes × Nat) : Except ErrorCode (Bytes × Nat) :=
  if dst.2 ≤ str.length then .error .encodingFail else .ok (dst.1 ++ str, dst.2 - str.length)

def SX (x : UInt32) (dst : Bytes × Nat) : Except ErrorCode (Bytes × Nat) := SS (decimal x.toNat) dst

def SB (buf : Bytes) (dst : Bytes × Nat) : Except ErrorCode (Bytes × Nat) :=
  match toBase64 dst.2 buf with
  | none => .error .encodingFail
  | some text => .ok (dst.1 ++ text, dst.2 - text.length)

def encodeString (dstLen : Nat) (ctx : Context) (type : Argon2Type) : Except ErrorCode Bytes := do
  validateInputs ctx
  let dst ← SS (bytesOf "$") ([], dstLen)
  let dst ← SS (type2string type false) dst
  let dst ← SS (bytesOf "$v=") dst
  let dst ← SX ctx.version dst
  let dst ← SS (bytesOf "$m=") dst
  let dst ← SX ctx.mCost dst
  let dst ← SS (bytesOf ",t=") dst
  let dst ← SX ctx.tCost dst
  let dst ← SS (bytesOf ",p=") dst
  let dst ← SX ctx.lanes dst
  let dst ← SS (bytesOf "$") dst
  let dst ← SB ctx.salt.bytes dst
  let dst ← SS (bytesOf "$") dst
  let dst ← SB ctx.out.bytes dst
  pure dst.1

def numlen (num : Nat) : Nat := if num < 10 then 1 else numlen (num / 10) + 1

def encodedlen (tCost mCost parallelism saltlen hashlen : UInt32) (type : Argon2Type) : Nat :=
  (bytesOf "$$v=$m=,t=,p=$$").length + (type2string type false).length + numlen tCost.toNat + numlen mCost.toNat +
    numlen parallelism.toNat + b64len saltlen.toNat + b64len hashlen.toNat + numlen versionNumber.toNat + 1

section Decimals

def NoDigit (str : Bytes) : Prop := ∀ c, str.head? = some c → isDigit c = false

theorem digit_iff (c : UInt8) : isDigit c = true ↔ ¬ (c < 48 ∨ 57 < c) := by
  rw [isDigit, Bool.and_eq_true, decide_eq_true_iff, decide_eq_true_iff, not_or, UInt8.not_lt, UInt8.not_lt]

theorem no_digit_nil : NoDigit [] := fun _ absent => absurd absent (by simp)

theorem digit_fits (acc d : Nat) : ¬ ulongMax / 10 < acc ∧ ¬ ulongMax - acc * 10 < d ↔ acc * 10 + d ≤ ulongMax := by
  unfold ulongMax
  omega

theorem decimal_loop_iff (str : Bytes) (acc v : Nat) (rest : Bytes) (small : acc ≤ ulongMax) :
    decimalLoop str acc = some (v, rest) ↔ ∃ digits, str = digits ++ rest ∧ (∀ c ∈ digits, isDigit c = true) ∧ NoDigit rest ∧
      v = value digits acc ∧ v ≤ ulongMax := by
  induction str generalizing acc with
  | nil =>
      rw [decimalLoop, Option.some.injEq, Prod.mk.injEq]
      constructor
      · rintro ⟨rfl, rfl⟩
        exact ⟨[], rfl, fun _ absent => absurd absent List.not_mem_nil, no_digit_nil, rfl, small⟩
      · rintro ⟨digits, split, _, _, rfl, _⟩
        obtain ⟨rfl, rfl⟩ := List.append_eq_nil_iff.mp split.symm
        exact ⟨rfl, rfl⟩
  | cons c str ih =>
      rw [decimalLoop]
      by_cases stop : c < 48 ∨ 57 < c
      · have noDigit : isDigit c = false := Bool.eq_false_iff.mpr fun digit => (digit_iff c).mp digit stop
        rw [if_pos stop, Option.some.injEq, Prod.mk.injEq]
        constructor
        · rintro ⟨rfl, rfl⟩
          refine ⟨[], rfl, fun _ absent => absurd absent List.not_mem_nil, ?_, rfl, small⟩
          intro d first
          rw [← Option.some.inj first, noDigit]
        · rintro ⟨digits, split, valid, _, rfl, _⟩
          cases digits with
          | nil => exact ⟨rfl, split⟩
          | cons d digits =>
              have digit := valid d List.mem_cons_self
              rw [← (List.cons.inj split).1, noDigit] at digit
              exact absurd digit (by decide)
      · have digit : isDigit c = true := (digit_iff c).mpr stop
        have split (p q : Prop) [Decidable p] [Decidable q] (next : Option (Nat × Bytes)) :
            (if p then none else if q then none else next) = if ¬ p ∧ ¬ q then next else none := by
          by_cases first : p <;> by_cases second : q <;> simp [first, second]
        rw [if_neg stop, split, if_congr (digit_fits acc (c.toNat - 48)) rfl rfl]
        have begins (digits : Bytes) (whole : c :: str = digits ++ rest) (noDigit : NoDigit rest) :
            ∃ more, digits = c :: more ∧ str = more ++ rest := by
          cases digits with
          | nil => exact absurd (noDigit c (by rw [← List.nil_append rest, ← whole]; rfl)) (by rw [digit]; decide)
          | cons d more =>
              obtain ⟨rfl, rest⟩ := List.cons.inj whole
              exact ⟨more, rfl, rest⟩
        by_cases fits : acc * 10 + (c.toNat - 48) ≤ ulongMax
        · rw [if_pos fits, ih _ fits]
          constructor
          · rintro ⟨digits, rfl, valid, noDigit, rfl, most⟩
            refine ⟨c :: digits, rfl, ?_, noDigit, rfl, most⟩
            intro d member
            rcases List.mem_cons.mp member with rfl | later
            · exact digit
            · exact valid d later
          · rintro ⟨digits, whole, valid, noDigit, rfl, most⟩
            obtain ⟨more, rfl, rfl⟩ := begins digits whole noDigit
            exact ⟨more, rfl, fun d member => valid d (List.mem_cons_of_mem c member), noDigit, rfl, most⟩
        · rw [if_neg fits]
          refine iff_of_false (by simp) ?_
          rintro ⟨digits, whole, _, noDigit, rfl, most⟩
          obtain ⟨more, rfl, _⟩ := begins digits whole noDigit
          exact fits (Nat.le_trans (acc_le_value more _) most)

theorem decode_decimal_iff (str : Bytes) (v : Nat) (rest : Bytes) :
    decodeDecimal str = some (v, rest) ↔ v ≤ ulongMax ∧ NoDigit rest ∧ str = decimal v ++ rest := by
  rw [decodeDecimal]
  constructor
  · intro read
    cases run : decimalLoop str 0 with
    | none =>
        rw [run] at read
        exact absurd read (by simp)
    | some result =>
        obtain ⟨acc, left⟩ := result
        rw [run] at read
        simp only [Option.ite_none_left_eq_some, Option.some.injEq, Prod.mk.injEq, not_or, not_and, not_not] at read
        obtain ⟨⟨some_, leading⟩, rfl, rfl⟩ := read
        obtain ⟨digits, rfl, valid, noDigit, rfl, most⟩ := (decimal_loop_iff str 0 acc left (Nat.zero_le _)).mp run
        have filled : digits ≠ [] := by
          rintro rfl
          exact some_ rfl
        have minimal : Minimal digits := by
          refine ⟨filled, fun zero => ?_⟩
          have one := leading (by rw [List.head?_append_of_ne_nil _ filled, zero])
          rw [List.length_append] at one
          obtain ⟨d, rfl⟩ := List.length_eq_one_iff.mp (show digits.length = 1 by omega)
          rw [Option.some.inj zero]
        exact ⟨most, noDigit, by rw [decimal_value digits valid minimal]⟩
  · rintro ⟨most, noDigit, rfl⟩
    have run := (decimal_loop_iff (decimal v ++ rest) 0 v rest (Nat.zero_le _)).mpr
      ⟨decimal v, rfl, decimal_digits v, noDigit, (value_decimal v).symm, most⟩
    rw [run]
    refine if_neg ?_
    have filled := List.length_pos_iff.mpr (decimal_ne_nil v)
    rw [List.length_append, List.head?_append_of_ne_nil _ (decimal_ne_nil v)]
    rintro (none | ⟨zero, many⟩)
    · omega
    · rw [(decimal_minimal v).2 zero, List.length_singleton] at many
      omega

end Decimals

end Libx.Argon2

import Libx.Lib.Bits
import Mathlib.Data.Nat.Bitwise
import Mathlib.Tactic.IntervalCases

set_option autoImplicit false

namespace Libx.Argon2

-- A buffer, or a string up to its terminating 0.
abbrev Bytes := List UInt8

-- The comparisons without branches: 0xFF for true and 0 for false.
def EQ (x y : BitVec 32) : BitVec 32 := (((0 - (x ^^^ y)) >>> 8) &&& 0xFF) ^^^ 0xFF
def GT (x y : BitVec 32) : BitVec 32 := ((y - x) >>> 8) &&& 0xFF
def GE (x y : BitVec 32) : BitVec 32 := GT y x ^^^ 0xFF
def LT (x y : BitVec 32) : BitVec 32 := GT y x
def LE (x y : BitVec 32) : BitVec 32 := GE y x

def ascii (c : Char) : BitVec 32 := BitVec.ofNat 32 c.toNat

def b64ByteToChar (x : BitVec 32) : BitVec 32 :=
  (LT x 26 &&& (x + ascii 'A')) ||| (GE x 26 &&& LT x 52 &&& (x + (ascii 'a' - 26))) |||
    (GE x 52 &&& LT x 62 &&& (x + (ascii '0' - 52))) ||| (EQ x 62 &&& ascii '+') ||| (EQ x 63 &&& ascii '/')

def b64CharToByte (c : BitVec 32) : BitVec 32 :=
  let x := (GE c (ascii 'A') &&& LE c (ascii 'Z') &&& (c - ascii 'A')) |||
    (GE c (ascii 'a') &&& LE c (ascii 'z') &&& (c - (ascii 'a' - 26))) |||
    (GE c (ascii '0') &&& LE c (ascii '9') &&& (c - (ascii '0' - 52))) ||| (EQ c (ascii '+') &&& 62) ||| (EQ c (ascii '/') &&& 63)
  x ||| (EQ x 0 &&& (EQ c (ascii 'A') ^^^ 0xFF))

-- (char)b64_byte_to_char(x), and b64_char_to_byte(*src) where char is signed.
def charOf (x : BitVec 32) : UInt8 := ⟨(b64ByteToChar x).setWidth 8⟩
def sextetOf (c : UInt8) : BitVec 32 := b64CharToByte (c.toBitVec.signExtend 32)

def b64len (len : Nat) : Nat :=
  let olen := len / 3 * 4
  match len % 3 with
  | 2 => olen + 3
  | 1 => olen + 2
  | _ => olen

-- The inner while: what is written while at least six bits are buffered, and
-- how many remain.
def emit (acc : BitVec 32) : Nat → Bytes × Nat
  | accLen + 6 => (charOf ((acc >>> accLen) &&& 0x3F) :: (emit acc accLen).1, (emit acc accLen).2)
  | accLen => ([], accLen)

def encodeLoop : Bytes → BitVec 32 → Nat → Bytes
  | [], acc, accLen => if 0 < accLen then [charOf ((acc <<< (6 - accLen)) &&& 0x3F)] else []
  | byte :: buf, acc, accLen =>
      let acc := (acc <<< 8) + byte.toBitVec.setWidth 32
      (emit acc (accLen + 8)).1 ++ encodeLoop buf acc (emit acc (accLen + 8)).2

-- None is the result (size_t)-1. The terminating 0 is not part of the text.
def toBase64 (dstLen : Nat) (src : Bytes) : Option Bytes :=
  if dstLen ≤ b64len src.length then none else some (encodeLoop src 0 0)

-- The bytes that are written, the buffered bits, and the first character that
-- is not read. None where the buffer is full.
def decodeLoop (dstLen : Nat) : Bytes → Bytes → BitVec 32 → Nat → Option (Bytes × BitVec 32 × Nat × Bytes)
  | [], out, acc, accLen => some (out, acc, accLen, [])
  | c :: src, out, acc, accLen =>
      let d := sextetOf c
      if d = 0xFF then some (out, acc, accLen, c :: src)
      else
        let acc := (acc <<< 6) + d
        let accLen := accLen + 6
        if 8 ≤ accLen then
          if dstLen ≤ out.length then none
          else decodeLoop dstLen src (out ++ [⟨((acc >>> (accLen - 8)) &&& 0xFF).setWidth 8⟩]) acc (accLen - 8)
        else decodeLoop dstLen src out acc accLen

-- None is the result NULL; otherwise the decoded bytes and the rest of the text.
def fromBase64 (dstLen : Nat) (src : Bytes) : Option (Bytes × Bytes) :=
  match decodeLoop dstLen src [] 0 0 with
  | none => none
  | some (out, acc, accLen, rest) =>
      if 4 < accLen ∨ acc &&& ((1#32 <<< accLen) - 1) ≠ 0 then none else some (out, rest)

-- What a character is read as: the comparisons are made for 0..255, and a
-- character that is negative as an int is equal to '/' for them.
def readAs (c : UInt8) : UInt8 := if c < 128 then c else 47

theorem char_tables :
    (∀ x < 64, sextetOf (charOf (BitVec.ofNat 32 x)) = BitVec.ofNat 32 x ∧ charOf (BitVec.ofNat 32 x) < 128) ∧
      ∀ n < 256, sextetOf (readAs (.ofNat n)) = sextetOf (.ofNat n) ∧
        (sextetOf (.ofNat n) ≠ 0xFF → (sextetOf (.ofNat n)).toNat < 64 ∧ charOf (sextetOf (.ofNat n)) = readAs (.ofNat n)) := by
  constructor <;> decide +kernel

theorem sextet_of_char (x : BitVec 32) (small : x.toNat < 64) : sextetOf (charOf x) = x := by
  have entry := (char_tables.1 x.toNat small).1
  rwa [BitVec.ofNat_toNat, BitVec.setWidth_eq] at entry

theorem char_of_sextet (c : UInt8) (valid : sextetOf c ≠ 0xFF) : (sextetOf c).toNat < 64 ∧ charOf (sextetOf c) = readAs c := by
  have entry := (char_tables.2 c.toNat c.toNat_lt).2
  rw [UInt8.ofNat_toNat] at entry
  exact entry valid

theorem sextet_read_as (c : UInt8) : sextetOf (readAs c) = sextetOf c := by
  have entry := (char_tables.2 c.toNat c.toNat_lt).1
  rwa [UInt8.ofNat_toNat] at entry

section Words

open Bits

theorem low_six (acc : BitVec 32) (low : Nat) : ((acc >>> low) &&& 0x3F).toNat = (acc.toNat >>> low) % 2 ^ 6 := by
  rw [BitVec.toNat_and, BitVec.toNat_ushiftRight]
  exact Nat.and_two_pow_sub_one_eq_mod _ 6

theorem low_eight (acc : BitVec 32) (low : Nat) : ((acc >>> low) &&& 0xFF).toNat = (acc.toNat >>> low) % 2 ^ 8 := by
  rw [BitVec.toNat_and, BitVec.toNat_ushiftRight]
  exact Nat.and_two_pow_sub_one_eq_mod _ 8

theorem push_bits (acc d : BitVec 32) (len a : Nat) (small : d.toNat < 2 ^ a) (fits : len + a ≤ 32) :
    bits (len + a) ((acc <<< a) + d).toNat = bits len acc.toNat ++ bits a d.toNat := by
  rw [BitVec.toNat_add, BitVec.toNat_shiftLeft, Nat.shiftLeft_eq, Nat.mod_add_mod, bits_mod _ _ _ fits, bits_push len a _ _ small]

theorem byte_out (acc : BitVec 32) (low : Nat) :
    bits (low + 8) acc.toNat = bits 8 (UInt8.ofBitVec (((acc >>> low) &&& 0xFF).setWidth 8)).toNat ++ bits low acc.toNat := by
  have value : (UInt8.ofBitVec (((acc >>> low) &&& 0xFF).setWidth 8)).toNat = (acc.toNat >>> low) % 2 ^ 8 := by
    show (((acc >>> low) &&& 0xFF).setWidth 8).toNat = _
    rw [BitVec.toNat_setWidth, low_eight, Nat.mod_mod]
  rw [value, bits_mod 8 8 _ le_rfl, Nat.add_comm low 8, bits_append]

def sextets (text : Bytes) : List Nat := text.map fun c => (sextetOf c).toNat
def octets (buf : Bytes) : List Nat := buf.map UInt8.toNat

def Letter (c : UInt8) : Prop := ∃ x : BitVec 32, x.toNat < 64 ∧ c = charOf x

theorem letter_sextet (c : UInt8) (letter : Letter c) : (sextetOf c).toNat < 64 ∧ charOf (sextetOf c) = c := by
  obtain ⟨x, small, rfl⟩ := letter
  rw [sextet_of_char x small]
  exact ⟨small, rfl⟩

theorem sextets_small (text : Bytes) (letters : ∀ c ∈ text, Letter c) : ∀ x ∈ sextets text, x < 2 ^ 6 := by
  intro x member
  obtain ⟨c, inside, rfl⟩ := List.mem_map.mp member
  exact (letter_sextet c (letters c inside)).1

theorem octets_small (buf : Bytes) : ∀ x ∈ octets buf, x < 2 ^ 8 := by
  intro x member
  obtain ⟨byte, _, rfl⟩ := List.mem_map.mp member
  exact byte.toNat_lt

theorem spell_sextets_cons (c : UInt8) (text : Bytes) :
    spell 6 (sextets (c :: text)) = bits 6 (sextetOf c).toNat ++ spell 6 (sextets text) := rfl

theorem spell_sextets_append (first second : Bytes) :
    spell 6 (sextets (first ++ second)) = spell 6 (sextets first) ++ spell 6 (sextets second) := by
  rw [sextets, List.map_append, spell, List.flatMap_append]
  rfl

theorem spell_octets_cons (byte : UInt8) (buf : Bytes) : spell 8 (octets (byte :: buf)) = bits 8 byte.toNat ++ spell 8 (octets buf) := rfl

theorem emit_spells (acc : BitVec 32) (accLen : Nat) :
    (emit acc accLen).2 < 6 ∧ (∀ c ∈ (emit acc accLen).1, Letter c) ∧
      bits accLen acc.toNat = spell 6 (sextets (emit acc accLen).1) ++ bits (emit acc accLen).2 acc.toNat := by
  induction accLen using emit.induct with
  | case1 accLen ih =>
      obtain ⟨few, letters, spelled⟩ := ih
      have small : ((acc >>> accLen) &&& 0x3F).toNat < 64 := by
        rw [low_six]
        exact Nat.mod_lt _ (by decide)
      refine ⟨few, ?_, ?_⟩
      · intro c member
        rcases List.mem_cons.mp member with rfl | later
        · exact ⟨_, small, rfl⟩
        · exact letters c later
      · show bits (accLen + 6) acc.toNat = _
        rw [emit, spell_sextets_cons, sextet_of_char _ small, low_six, bits_mod 6 6 _ le_rfl, Nat.add_comm accLen 6, bits_append,
          spelled, List.append_assoc]
  | case2 accLen few =>
      have stops : emit acc accLen = ([], accLen) := by
        rw [emit]
        exact few
      rw [stops]
      refine ⟨?_, fun _ absent => absurd absent List.not_mem_nil, rfl⟩
      by_contra many
      exact few (accLen - 6) (by omega)

theorem encode_spells (buf : Bytes) (acc : BitVec 32) (accLen : Nat) (few : accLen < 6) :
    (∀ c ∈ encodeLoop buf acc accLen, Letter c) ∧
      ∃ zeros < 6, spell 6 (sextets (encodeLoop buf acc accLen)) =
        bits accLen acc.toNat ++ spell 8 (octets buf) ++ List.replicate zeros false := by
  induction buf generalizing acc accLen with
  | nil =>
      by_cases pending : 0 < accLen
      · have small : ((acc <<< (6 - accLen)) &&& 0x3F).toNat < 64 := by
          rw [BitVec.toNat_and]
          exact Nat.lt_of_le_of_lt Nat.and_le_right (by decide)
        have last : bits 6 ((acc <<< (6 - accLen)) &&& 0x3F).toNat = bits accLen acc.toNat ++ List.replicate (6 - accLen) false := by
          have pushed := push_bits acc 0#32 accLen (6 - accLen) (Nat.two_pow_pos _) (by omega)
          have masked := low_six (acc <<< (6 - accLen)) 0
          rw [BitVec.ushiftRight_zero, Nat.shiftRight_zero] at masked
          rw [BitVec.add_zero, BitVec.toNat_zero, bits_zero, Nat.add_sub_cancel' (Nat.le_of_lt few)] at pushed
          rw [masked, bits_mod 6 6 _ le_rfl, pushed]
        rw [encodeLoop, if_pos pending]
        refine ⟨?_, 6 - accLen, by omega, ?_⟩
        · intro c member
          rw [List.mem_singleton] at member
          exact ⟨_, small, member⟩
        · rw [spell_sextets_cons, sextet_of_char _ small, last]
          simp [sextets, octets, spell]
      · rw [encodeLoop, if_neg pending]
        have none : accLen = 0 := Nat.eq_zero_of_not_pos pending
        refine ⟨fun _ absent => absurd absent List.not_mem_nil, 0, by decide, ?_⟩
        rw [none]
        rfl
  | cons byte buf ih =>
      have wide : (byte.toBitVec.setWidth 32).toNat = byte.toNat :=
        (BitVec.toNat_setWidth 32 byte.toBitVec).trans (Nat.mod_eq_of_lt (Nat.lt_trans byte.toNat_lt (by decide)))
      have pushed := push_bits acc (byte.toBitVec.setWidth 32) accLen 8 (wide ▸ byte.toNat_lt) (by omega)
      obtain ⟨left, letters, spelled⟩ := emit_spells ((acc <<< 8) + byte.toBitVec.setWidth 32) (accLen + 8)
      obtain ⟨later, zeros, zerosFew, rest⟩ := ih ((acc <<< 8) + byte.toBitVec.setWidth 32) _ left
      rw [encodeLoop]
      refine ⟨?_, zeros, zerosFew, ?_⟩
      · intro c member
        rcases List.mem_append.mp member with here | after
        · exact letters c here
        · exact later c after
      · rw [spell_sextets_append, rest, spell_octets_cons, ← wide, ← List.append_assoc (bits accLen acc.toNat), ← pushed, spelled]
        simp only [List.append_assoc]

def Stops : Bytes → Prop
  | [] => True
  | c :: _ => sextetOf c = 0xFF

theorem decode_spells (dstLen : Nat) (src out : Bytes) (acc : BitVec 32) (accLen : Nat) (few : accLen < 8)
    (out' : Bytes) (acc' : BitVec 32) (accLen' : Nat) (rest : Bytes)
    (decoded : decodeLoop dstLen src out acc accLen = some (out', acc', accLen', rest)) :
    accLen' < 8 ∧ Stops rest ∧ (out.length ≤ dstLen → out'.length ≤ dstLen) ∧ ∃ read more, src = read ++ rest ∧ out' = out ++ more ∧
      (∀ c ∈ read, sextetOf c ≠ 0xFF) ∧
      bits accLen acc.toNat ++ spell 6 (sextets read) = spell 8 (octets more) ++ bits accLen' acc'.toNat := by
  induction src generalizing out acc accLen with
  | nil =>
      simp only [decodeLoop, Option.some.injEq, Prod.mk.injEq] at decoded
      obtain ⟨rfl, rfl, rfl, rfl⟩ := decoded
      exact ⟨few, trivial, id, [], [], rfl, (List.append_nil out).symm, fun _ absent => absurd absent List.not_mem_nil,
        by simp [spell, sextets, octets]⟩
  | cons c src ih =>
      rw [decodeLoop] at decoded
      by_cases stop : sextetOf c = 0xFF
      · simp only [stop, if_true, Option.some.injEq, Prod.mk.injEq] at decoded
        obtain ⟨rfl, rfl, rfl, rfl⟩ := decoded
        exact ⟨few, stop, id, [], [], rfl, (List.append_nil out).symm, fun _ absent => absurd absent List.not_mem_nil,
          by simp [spell, sextets, octets]⟩
      · simp only [stop, if_false] at decoded
        have pushed := push_bits acc (sextetOf c) accLen 6 (char_of_sextet c stop).1 (by omega)
        have valid : ∀ read : Bytes, (∀ d ∈ read, sextetOf d ≠ 0xFF) → ∀ d ∈ c :: read, sextetOf d ≠ 0xFF := by
          intro read letters d member
          rcases List.mem_cons.mp member with rfl | later
          · exact stop
          · exact letters d later
        by_cases full : 8 ≤ accLen + 6
        · rw [if_pos full] at decoded
          by_cases space : dstLen ≤ out.length
          · rw [if_pos space] at decoded
            exact absurd decoded (by simp)
          · rw [if_neg space] at decoded
            obtain ⟨few', stops, fits, read, more, rfl, rfl, letters, spelled⟩ := ih _ _ _ (by omega) decoded
            have whole := byte_out ((acc <<< 6) + sextetOf c) (accLen + 6 - 8)
            rw [Nat.sub_add_cancel full, pushed] at whole
            refine ⟨few', stops, ?_, c :: read, ⟨((((acc <<< 6) + sextetOf c) >>> (accLen + 6 - 8)) &&& 0xFF).setWidth 8⟩ :: more, rfl,
              by simp, valid read letters, ?_⟩
            · intro room
              exact fits (by rw [List.length_append, List.length_singleton]; omega)
            · rw [spell_sextets_cons, ← List.append_assoc, whole, spell_octets_cons, List.append_assoc, spelled, List.append_assoc]
        · rw [if_neg full] at decoded
          obtain ⟨few', stops, fits, read, more, rfl, rfl, letters, spelled⟩ := ih _ _ _ (by omega) decoded
          refine ⟨few', stops, fits, c :: read, more, rfl, rfl, valid read letters, ?_⟩
          rw [spell_sextets_cons, ← List.append_assoc, ← pushed, spelled]

theorem decode_runs (dstLen : Nat) (read rest out : Bytes) (acc : BitVec 32) (accLen : Nat) (few : accLen < 8)
    (letters : ∀ c ∈ read, sextetOf c ≠ 0xFF) (stops : Stops rest) (room : out.length + (accLen + 6 * read.length) / 8 ≤ dstLen) :
    ∃ out' acc' accLen', decodeLoop dstLen (read ++ rest) out acc accLen = some (out', acc', accLen', rest) := by
  induction read generalizing out acc accLen with
  | nil =>
      cases rest with
      | nil => exact ⟨out, acc, accLen, rfl⟩
      | cons c rest => exact ⟨out, acc, accLen, by rw [List.nil_append, decodeLoop, if_pos (show sextetOf c = 0xFF from stops)]⟩
  | cons c read ih =>
      have later : ∀ d ∈ read, sextetOf d ≠ 0xFF := fun d member => letters d (List.mem_cons_of_mem c member)
      rw [List.length_cons] at room
      rw [List.cons_append, decodeLoop]
      simp only [letters c List.mem_cons_self, if_false]
      by_cases full : 8 ≤ accLen + 6
      · rw [if_pos full, if_neg (by omega)]
        exact ih _ _ _ (by omega) later (by rw [List.length_append, List.length_singleton]; omega)
      · rw [if_neg full]
        exact ih _ _ _ (by omega) later (by omega)

theorem pending_zero (acc : BitVec 32) (accLen : Nat) (few : accLen < 8) :
    acc &&& ((1#32 <<< accLen) - 1) = 0 ↔ bits accLen acc.toNat = List.replicate accLen false := by
  have mask : ((1#32 <<< accLen) - 1).toNat = 2 ^ accLen - 1 := by
    interval_cases accLen <;> rfl
  rw [bits_zero_iff, ← BitVec.toNat_inj, BitVec.toNat_and, mask, Nat.and_two_pow_sub_one_eq_mod]
  rfl

theorem fill_unique (m m' n l z : Nat) (first : 6 * m = 8 * n + l) (second : 6 * m' = 8 * n + z) (left : l < 6) (right : z < 6) :
    l = z := by
  omega

theorem letter_read_as (c : UInt8) (letter : Letter (readAs c)) : sextetOf c ≠ 0xFF := by
  have small := (letter_sextet _ letter).1
  rw [sextet_read_as] at small
  intro stop
  rw [stop] at small
  exact absurd small (by decide)

theorem encode_ascii (buf : Bytes) : (encodeLoop buf 0 0).map readAs = encodeLoop buf 0 0 := by
  nth_rewrite 2 [← List.map_id (encodeLoop buf 0 0)]
  apply List.map_congr_left
  intro c member
  obtain ⟨x, small, rfl⟩ := (encode_spells buf 0 0 (by decide)).1 c member
  have entry := (char_tables.1 x.toNat small).2
  rw [BitVec.ofNat_toNat, BitVec.setWidth_eq] at entry
  exact if_pos entry

theorem read_back (read text : Bytes) (valid : ∀ c ∈ read, sextetOf c ≠ 0xFF) (letters : ∀ c ∈ text, Letter c)
    (words : sextets read = sextets text) : read.map readAs = text := by
  have mapped := congrArg (List.map fun x => charOf (BitVec.ofNat 32 x)) words
  rw [sextets, sextets, List.map_map, List.map_map] at mapped
  calc read.map readAs = read.map ((fun x => charOf (BitVec.ofNat 32 x)) ∘ fun c => (sextetOf c).toNat) :=
        List.map_congr_left fun c member => by simp [(char_of_sextet c (valid c member)).2]
    _ = text.map ((fun x => charOf (BitVec.ofNat 32 x)) ∘ fun c => (sextetOf c).toNat) := mapped
    _ = text.map id := List.map_congr_left fun c member => by simp [(letter_sextet c (letters c member)).2]
    _ = text := List.map_id text

theorem written_bits (buf : Bytes) :
    ∃ zeros < 6, spell 6 (sextets (encodeLoop buf 0 0)) = spell 8 (octets buf) ++ List.replicate zeros false ∧
      6 * (encodeLoop buf 0 0).length = 8 * buf.length + zeros := by
  obtain ⟨_, zeros, few, spelled⟩ := encode_spells buf 0 0 (by decide)
  refine ⟨zeros, few, spelled, ?_⟩
  have lengths := congrArg List.length spelled
  simpa [spell_length, sextets, octets] using lengths

theorem encode_length (buf : Bytes) : (encodeLoop buf 0 0).length = b64len buf.length := by
  obtain ⟨zeros, few, _, lengths⟩ := written_bits buf
  have split : ∀ len, b64len len = len / 3 * 4 + (if len % 3 = 2 then 3 else len % 3 * 2) := by
    intro len
    rw [b64len]
    have third := Nat.mod_lt len (show 0 < 3 by decide)
    generalize len % 3 = last at third
    interval_cases last <;> rfl
  rw [split]
  split_ifs <;> omega

theorem accepted_written (dstLen : Nat) (src out rest : Bytes) (accepted : fromBase64 dstLen src = some (out, rest)) :
    out.length ≤ dstLen ∧ Stops rest ∧ ∃ text, src = text ++ rest ∧ text.map readAs = encodeLoop out 0 0 := by
  rw [fromBase64] at accepted
  cases run : decodeLoop dstLen src [] 0 0 with
  | none =>
      rw [run] at accepted
      exact absurd accepted (by simp)
  | some result =>
      obtain ⟨out', acc, accLen, rest'⟩ := result
      rw [run] at accepted
      simp only [Option.ite_none_left_eq_some, Option.some.injEq, Prod.mk.injEq, not_or, not_not] at accepted
      obtain ⟨⟨four, pending⟩, rfl, rfl⟩ := accepted
      obtain ⟨few, stops, fits, read, more, rfl, rfl, valid, spelled⟩ := decode_spells _ _ _ _ _ (by decide) _ _ _ _ run
      obtain ⟨zeros, zerosFew, encoded, encodedLength⟩ := written_bits out'
      rw [(pending_zero acc accLen few).mp pending] at spelled
      have readLength := congrArg List.length spelled
      simp only [spell_length, List.length_append, List.length_replicate, bits_length, sextets, octets, List.length_map, Nat.zero_add] at readLength
      have fill := fill_unique _ _ _ _ _ readLength encodedLength (by omega) zerosFew
      have words : sextets read = sextets (encodeLoop out' 0 0) := by
        apply spell_injective 6 (by decide) _ _ _ (sextets_small _ (encode_spells out' 0 0 (by decide)).1)
        · exact spelled.trans (by rw [fill, encoded])
        · intro x member
          obtain ⟨c, inside, rfl⟩ := List.mem_map.mp member
          exact (char_of_sextet c (valid c inside)).1
      exact ⟨fits (Nat.zero_le dstLen), stops, read, rfl, read_back read _ valid (encode_spells out' 0 0 (by decide)).1 words⟩

theorem written_accepted (dstLen : Nat) (text out rest : Bytes) (fits : out.length ≤ dstLen) (stops : Stops rest)
    (written : text.map readAs = encodeLoop out 0 0) : fromBase64 dstLen (text ++ rest) = some (out, rest) := by
  obtain ⟨zeros, zerosFew, encoded, encodedLength⟩ := written_bits out
  have letters := (encode_spells out 0 0 (by decide)).1
  rw [← written] at letters encoded encodedLength
  have valid : ∀ c ∈ text, sextetOf c ≠ 0xFF := fun c member => letter_read_as c (letters _ (List.mem_map_of_mem member))
  have words : sextets (text.map readAs) = sextets text := by
    rw [sextets, sextets, List.map_map]
    exact List.map_congr_left fun c _ => congrArg BitVec.toNat (sextet_read_as c)
  rw [words] at encoded
  rw [List.length_map] at encodedLength
  obtain ⟨out', acc, accLen, run⟩ := decode_runs dstLen text rest [] 0 0 (by decide) valid stops (by rw [List.length_nil]; omega)
  obtain ⟨few, _, _, read, _, split, rfl, _, spelled⟩ := decode_spells _ _ _ _ _ (by decide) _ _ _ _ run
  obtain rfl := List.append_cancel_right split
  have plain : spell 8 (octets out) ++ List.replicate zeros false = spell 8 (octets out') ++ bits accLen acc.toNat :=
    encoded.symm.trans spelled
  have lengths := congrArg List.length plain
  simp only [spell_length, List.length_append, List.length_replicate, bits_length, octets, List.length_map] at lengths
  have count : out.length = out'.length := by omega
  have fill : accLen = zeros := by omega
  obtain ⟨bytes, pending⟩ := List.append_inj plain (by
    rw [spell_length, spell_length, octets, octets, List.length_map, List.length_map, count])
  have back : octets out = octets out' := spell_injective 8 (by decide) _ _ (octets_small out) (octets_small out') bytes
  have sameBytes : out = out' := List.map_injective_iff.mpr (fun _ _ => UInt8.toNat_inj.mp) back
  rw [fill] at run pending
  rw [fromBase64, run]
  show (if 4 < zeros ∨ acc &&& ((1#32 <<< zeros) - 1) ≠ 0 then none else some (out', rest)) = some (out, rest)
  rw [if_neg ?_, sameBytes]
  rintro (many | low)
  · omega
  · exact low ((pending_zero acc zeros (by omega)).mpr pending.symm)

theorem base64_inverse (bytes : Bytes) (dstLen : Nat) :
    (∀ room text rest, toBase64 room bytes = some text → Stops rest →
      fromBase64 dstLen (text ++ rest) = if bytes.length ≤ dstLen then some (bytes, rest) else none) ∧
    ∀ src rest, fromBase64 dstLen src = some (bytes, rest) → bytes.length ≤ dstLen ∧ Stops rest ∧
      ∃ text, src = text ++ rest ∧ text.length = b64len bytes.length ∧
        ∀ room, toBase64 room bytes = if b64len bytes.length < room then some (text.map readAs) else none := by
  constructor
  · intro room text rest written stops
    have whole : text.map readAs = encodeLoop bytes 0 0 := by
      rw [toBase64, Option.ite_none_left_eq_some, Option.some.injEq] at written
      rw [← written.2, encode_ascii]
    by_cases fits : bytes.length ≤ dstLen
    · rw [if_pos fits, written_accepted dstLen text bytes rest fits stops whole]
    · rw [if_neg fits, Option.eq_none_iff_forall_ne_some]
      rintro ⟨out, rest'⟩ accepted
      obtain ⟨outFits, outStops, text', split, outWhole⟩ := accepted_written dstLen _ out rest' accepted
      have asBytes := written_accepted bytes.length text bytes rest le_rfl stops whole
      have asOut := written_accepted bytes.length text' out rest' (by omega) outStops outWhole
      rw [← split, asBytes, Option.some.injEq, Prod.mk.injEq] at asOut
      exact fits (asOut.1 ▸ outFits)
  · intro src rest accepted
    obtain ⟨fits, stops, text, split, written⟩ := accepted_written dstLen src bytes rest accepted
    refine ⟨fits, stops, text, split, ?_, ?_⟩
    · rw [← encode_length bytes, ← written, List.length_map]
    · intro room
      rw [toBase64, written]
      by_cases space : b64len bytes.length < room
      · rw [if_pos space, if_neg (Nat.not_le.mpr space)]
      · rw [if_neg space, if_pos (Nat.not_lt.mp space)]

theorem base64_inverse_sample :
    toBase64 4 [77, 97] = some [84, 87, 69] ∧ fromBase64 2 [84, 87, 69, 36] = some ([77, 97], [36]) ∧
      fromBase64 1 [84, 87, 69, 36] = none ∧
      ∃ text, [84, 87, 69, 36] = text ++ [36] ∧ text.length = 3 ∧ toBase64 4 [77, 97] = some (text.map readAs) := by
  have written : toBase64 4 [77, 97] = some [84, 87, 69] := by decide +kernel
  have stops : Stops [36] := by
    show sextetOf 36 = 0xFF
    decide
  have taken : fromBase64 2 ([84, 87, 69] ++ [36]) = some ([77, 97], [36]) := (base64_inverse [77, 97] 2).1 4 _ [36] written stops
  have refused : fromBase64 1 ([84, 87, 69] ++ [36]) = none := (base64_inverse [77, 97] 1).1 4 _ [36] written stops
  obtain ⟨_, _, text, split, length, again⟩ := (base64_inverse [77, 97] 2).2 [84, 87, 69, 36] [36] taken
  exact ⟨written, taken, refused, text, split, length, again 4⟩

end Words

end Libx.Argon2

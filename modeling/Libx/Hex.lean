import Libx.Url.RoundTrip

set_option autoImplicit false

namespace Libx.Hex

open Url

-- Letters from 'a' in pbx_hex.h, from 'A' in hexdump.h.
def ucharToHexchar (ten c : UInt8) : UInt8 := if c < 10 then c + byte '0' else c - 10 + ten

-- What *q is as an int.
def signedChar (c : UInt8) : Int32 := c.toInt8.toInt32
def unsignedChar (c : UInt8) : Int32 := c.toUInt32.toInt32

def hexed (ten : UInt8) (c : Int32) : Bytes :=
  [ucharToHexchar ten ((c &&& 0xF0) >>> 4).toInt8.toUInt8, ucharToHexchar ten (c &&& 0xF).toInt8.toUInt8, byte ' ']

-- A pointer is the memory from it on; none where a loop reads behind that memory.
-- The test of T_to_hex( const char* ) has moved q on when the body reads *q.
def tToHexChar : Bytes → Option Bytes
  | [] => none
  | c :: rest =>
      if c = 0 then some []
      else
        match rest with
        | [] => none
        | q :: _ => (tToHexChar rest).map (hexed (byte 'a') (signedChar q) ++ ·)

def tToHexUchar : Bytes → Option Bytes
  | [] => none
  | c :: rest => if c = 0 then some [] else (tToHexUchar rest).map (hexed (byte 'a') (unsignedChar c) ++ ·)

-- to_hex of hexdump.h, which counts.
def toHex (promote : UInt8 → Int32) : Bytes → Nat → Option Bytes
  | _, 0 => some []
  | [], _ + 1 => none
  | c :: rest, len + 1 => (toHex promote rest len).map (hexed (byte 'A') (promote c) ++ ·)

structure CString where
  bytes : Bytes
  clean : 0 ∉ bytes

def CString.memory (s : CString) (after : Bytes) : Bytes := s.bytes ++ 0 :: after

def lowerDigits : Bytes := "0123456789abcdef".toList.map byte

def spelled (digits : Bytes) (c : UInt8) : Bytes := [digits.getD (c.toNat / 16) 0, digits.getD (c.toNat % 16) 0, byte ' ']

-- The sign of a char is lost in the masks.
theorem hexed_lower (c : UInt8) :
    hexed (byte 'a') (signedChar c) = spelled lowerDigits c ∧ hexed (byte 'a') (unsignedChar c) = spelled lowerDigits c := by
  apply all_bytes fun c =>
    hexed (byte 'a') (signedChar c) = spelled lowerDigits c ∧ hexed (byte 'a') (unsignedChar c) = spelled lowerDigits c
  decide +kernel

theorem hexed_upper (c : UInt8) :
    hexed (byte 'A') (signedChar c) = spelled DEC2HEX c ∧ hexed (byte 'A') (unsignedChar c) = spelled DEC2HEX c := by
  apply all_bytes fun c =>
    hexed (byte 'A') (signedChar c) = spelled DEC2HEX c ∧ hexed (byte 'A') (unsignedChar c) = spelled DEC2HEX c
  decide +kernel

theorem spelled_zero (c : UInt8) (same : spelled lowerDigits c = spelled lowerDigits 0) : c = 0 := by
  revert same
  apply all_bytes fun c => spelled lowerDigits c = spelled lowerDigits 0 → c = 0
  decide +kernel

theorem t_to_hex_uchar_string (bytes after : Bytes) (clean : 0 ∉ bytes) :
    tToHexUchar (bytes ++ 0 :: after) = some (bytes.flatMap (spelled lowerDigits)) := by
  induction bytes with
  | nil => rfl
  | cons c rest ih =>
      obtain ⟨other, clean⟩ := not_or.mp (mt List.mem_cons.mpr clean)
      rw [List.cons_append, tToHexUchar, if_neg (Ne.symm other), ih clean, (hexed_lower c).2]
      rfl

theorem t_to_hex_char_string (c : UInt8) (rest after : Bytes) (clean : 0 ∉ c :: rest) :
    tToHexChar (c :: rest ++ 0 :: after) = some ((rest ++ [0]).flatMap (spelled lowerDigits)) := by
  induction rest generalizing c with
  | nil =>
      have other : c ≠ 0 := fun same => clean (by simp [same])
      simp [tToHexChar, other, (hexed_lower 0).1]
  | cons q rest ih =>
      obtain ⟨other, clean⟩ := not_or.mp (mt List.mem_cons.mpr clean)
      rw [List.cons_append, List.cons_append, tToHexChar, if_neg (Ne.symm other), ← List.cons_append, ih q clean,
        (hexed_lower q).1]
      rfl

theorem t_to_hex_iff (s : CString) (after : Bytes) :
    (tToHexChar (s.memory after) = tToHexUchar (s.memory after) ∧
      tToHexUchar (s.memory after) = some (s.bytes.flatMap (spelled lowerDigits))) ↔ s.bytes = [] := by
  have unsigned := t_to_hex_uchar_string s.bytes after s.clean
  constructor
  · rintro ⟨agree, -⟩
    by_contra some_
    obtain ⟨c, rest, split⟩ := List.exists_cons_of_ne_nil some_
    have signed := t_to_hex_char_string c rest after (split ▸ s.clean)
    rw [CString.memory, unsigned, split, signed] at agree
    obtain ⟨front, last, ends⟩ := List.eq_nil_or_concat' (c :: rest) |>.resolve_left (by simp)
    have texts := Option.some.inj agree
    rw [ends, List.flatMap_append, List.flatMap_append, List.flatMap_singleton, List.flatMap_singleton] at texts
    have terminator := (List.append_inj' texts rfl).2
    have zero := spelled_zero last terminator.symm
    exact s.clean (by rw [split, ends, zero]; simp)
  · intro empty
    rw [CString.memory, unsigned, empty]
    exact ⟨rfl, rfl⟩

theorem t_to_hex_misses_first :
    tToHexChar (CString.memory ⟨[byte 'A'], by decide⟩ []) ≠ tToHexUchar (CString.memory ⟨[byte 'A'], by decide⟩ []) := by
  decide

theorem to_hex_counted (promote : UInt8 → Int32) (bytes after : Bytes)
    (same : ∀ c, hexed (byte 'A') (promote c) = spelled DEC2HEX c) :
    toHex promote (bytes ++ after) bytes.length = some (bytes.flatMap (spelled DEC2HEX)) := by
  induction bytes with
  | nil => simp [toHex]
  | cons c rest ih =>
      rw [List.cons_append, List.length_cons, toHex, ih, same c]
      rfl

theorem to_hex_overloads_agree (bytes after : Bytes) :
    toHex signedChar (bytes ++ after) bytes.length = toHex unsignedChar (bytes ++ after) bytes.length := by
  rw [to_hex_counted signedChar bytes after fun c => (hexed_upper c).1,
    to_hex_counted unsignedChar bytes after fun c => (hexed_upper c).2]

end Libx.Hex

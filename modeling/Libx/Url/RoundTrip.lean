import Libx.Url.Model
import Libx.Lib.Escape

set_option autoImplicit false

namespace Libx.Url

open Escape

def highDigit (c : UInt8) : UInt8 := DEC2HEX.getD (c >>> 4).toNat 0
def lowDigit (c : UInt8) : UInt8 := DEC2HEX.getD (c &&& 0x0F).toNat 0

theorem all_bytes (p : UInt8 → Prop) [DecidablePred p] (checked : (List.range 256).all fun n => p (UInt8.ofNat n)) (b : UInt8) :
    p b := by
  have inside : b.toNat ∈ List.range 256 := List.mem_range.mpr b.toNat_lt
  have here := List.all_eq_true.mp checked b.toNat inside
  rw [UInt8.ofNat_toNat] at here
  exact of_decide_eq_true here

theorem hex_out_digits (c : UInt8) : hexOut c.toNat = [highDigit c, lowDigit c] := by
  apply all_bytes (fun c => hexOut c.toNat = [highDigit c, lowDigit c])
  decide +kernel

theorem keeps_plain (c : UInt8) (kept : keeps c = true) : c ≠ byte '%' ∧ c ≠ byte '+' := by
  constructor
  · intro same
    exact absurd (same ▸ kept) (by decide)
  · intro same
    exact absurd (same ▸ kept) (by decide)

theorem safe_plain (c : UInt8) (kept : SAFE.getD c.toNat 0 ≠ 0) : c ≠ byte '%' ∧ c ≠ byte '+' := by
  constructor
  · intro same
    exact kept (same ▸ by decide)
  · intro same
    exact kept (same ▸ by decide)

theorem digits_joined (c : UInt8) : highDigit c ≠ 0 ∧ lowDigit c ≠ 0 ∧ joined (highDigit c) (lowDigit c) = c := by
  apply all_bytes (fun c => highDigit c ≠ 0 ∧ lowDigit c ≠ 0 ∧ joined (highDigit c) (lowDigit c) = c)
  decide +kernel

theorem digits_added (c : UInt8) :
    hex2dec (highDigit c) ≠ -1 ∧ hex2dec (lowDigit c) ≠ -1 ∧ added (hex2dec (highDigit c)) (hex2dec (lowDigit c)) = c := by
  apply all_bytes fun c => hex2dec (highDigit c) ≠ -1 ∧ hex2dec (lowDigit c) ≠ -1 ∧
    added (hex2dec (highDigit c)) (hex2dec (lowDigit c)) = c
  decide +kernel

theorem url_decode_default (c : UInt8) (rest : Bytes) (other : c ≠ byte '%') :
    urlDecode (c :: rest) = plusToSpace c :: urlDecode rest := by
  rw [urlDecode.eq_def]
  refine (if_neg other).trans ?_
  by_cases plus : c = byte '+'
  · simp [plus, plusToSpace]
  · simp [plus, plusToSpace]

theorem url_decode_plain (c : UInt8) (rest : Bytes) (plain : c ≠ byte '%' ∧ c ≠ byte '+') :
    urlDecode (c :: rest) = c :: urlDecode rest := by
  have kept : plusToSpace c = c := if_neg plain.2
  rw [url_decode_default c rest plain.1, kept]

theorem url_decode_escape (c : UInt8) (rest : Bytes) :
    urlDecode (byte '%' :: highDigit c :: lowDigit c :: rest) = c :: urlDecode rest := by
  obtain ⟨high, low, same⟩ := digits_joined c
  rw [urlDecode, if_pos rfl, if_pos ⟨high, low⟩, same]

theorem uri_decode_plain (c : UInt8) (rest : Bytes) (plain : c ≠ byte '%' ∧ c ≠ byte '+') :
    uriDecode (c :: rest) = c :: uriDecode rest := by
  have kept : plusToSpace c = c := if_neg plain.2
  cases rest with
  | nil => simp [uriDecode, kept]
  | cons next rest =>
      cases rest with
      | nil => simp [uriDecode, kept]
      | cons last rest => rw [uriDecode, if_neg fun escape => plain.1 escape.1, kept]

theorem uri_decode_escape (c : UInt8) (rest : Bytes) :
    uriDecode (byte '%' :: highDigit c :: lowDigit c :: rest) = c :: uriDecode rest := by
  obtain ⟨high, low, same⟩ := digits_added c
  rw [uriDecode, if_pos ⟨rfl, high, low⟩, same]

section Codes

variable (kept : UInt8 → Prop) [DecidablePred kept] (plain : ∀ c, kept c → c ≠ byte '%' ∧ c ≠ byte '+')

def urlCode : Code UInt8 UInt8 where
  piece := markedPiece kept (byte '%') highDigit lowDigit
  decode := urlDecode
  ends := rfl
  reads := marked_reads kept (byte '%') highDigit lowDigit urlDecode
    (fun c rest keep => url_decode_plain c rest (plain c keep)) url_decode_escape

def uriCode : Code UInt8 UInt8 where
  piece := markedPiece kept (byte '%') highDigit lowDigit
  decode := uriDecode
  ends := rfl
  reads := marked_reads kept (byte '%') highDigit lowDigit uriDecode
    (fun c rest keep => uri_decode_plain c rest (plain c keep)) uri_decode_escape

end Codes

theorem url_encode_pieces (s : Bytes) :
    urlEncode s = s.flatMap (markedPiece (fun c => keeps c = true) (byte '%') highDigit lowDigit) := by
  simp only [urlEncode, hex_out_digits]
  rfl

theorem uri_encode_pieces (s : Bytes) :
    uriEncode s = s.flatMap (markedPiece (fun c => SAFE.getD c.toNat 0 ≠ 0) (byte '%') highDigit lowDigit) := rfl

theorem decoders_undo_encoders (s : Bytes) :
    urlDecode (urlEncode s) = s ∧ urlDecode (uriEncode s) = s ∧ uriDecode (urlEncode s) = s ∧ uriDecode (uriEncode s) = s := by
  rw [url_encode_pieces, uri_encode_pieces]
  refine ⟨?_, ?_, ?_, ?_⟩
  · exact (urlCode _ keeps_plain).decode_encode s
  · exact (urlCode _ safe_plain).decode_encode s
  · exact (uriCode _ keeps_plain).decode_encode s
  · exact (uriCode _ safe_plain).decode_encode s

end Libx.Url

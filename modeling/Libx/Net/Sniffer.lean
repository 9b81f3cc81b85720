import Libx.Text
import Mathlib.Data.List.Basic

set_option autoImplicit false

namespace Libx.Net

-- The buffer of loop_recvfrom by its places; behind the received bytes it holds older ones.
abbrev Packet := Nat → UInt8

def ntohs (packet : Packet) (place : Nat) : UInt16 := .ofNat ((packet place).toNat * 256 + (packet (place + 1)).toNat)

def sizeofEthhdr : UInt64 := 14
def sizeofArphdr : UInt64 := 8
def sizeofIphdr : UInt64 := 20
def sizeofTcphdr : UInt64 := 20

def hproto (packet : Packet) : UInt16 := ntohs packet 12
def totLen (packet : Packet) : UInt16 := ntohs packet 16
def protocol (packet : Packet) : UInt8 := packet 23
def payloadLen (packet : Packet) : UInt16 := ntohs packet 18

-- ntohs of the one byte that the protocol is.
def protocolCase (packet : Packet) : UInt16 := .ofNat ((protocol packet).toNat * 256)

-- append_iphdr: its result and the new size_.
def appendIphdr (packet : Packet) (size_ : UInt64) : UInt64 × UInt64 :=
  ((totLen packet).toUInt64 - sizeofIphdr, size_ - (totLen packet).toUInt64)

-- A range of the packet that is handed to char_to_hex and render_printable_chars.
structure Dump where
  start : Nat
  length : UInt64
deriving DecidableEq

-- fctor0: the size it prints and the dump of the TCP branch.
def fctor0 (packet : Packet) (recvDataSize : UInt64) : UInt64 × Option Dump :=
  let size := recvDataSize - sizeofEthhdr
  if hproto packet = 0x0806 then (size - sizeofArphdr, none)
  else if hproto packet = 0x0800 then
    let (szAfterIP, size) := appendIphdr packet size
    if protocolCase packet = 0x0600 then
      (size, some ⟨(sizeofEthhdr + sizeofIphdr + sizeofTcphdr).toNat, szAfterIP - sizeofTcphdr⟩)
    else (size, none)
  else if hproto packet = 0x86DD then (size - (payloadLen packet).toUInt64, none)
  else (size, none)

def hexDigit (value : Nat) : Char := if value < 10 then .ofNat ('0'.toNat + value) else .ofNat ('A'.toNat + (value - 10))

def charToHex (data : Nat → UInt8) (len : Nat) : Text :=
  (List.range len).flatMap fun i => [hexDigit ((data i).toNat / 16), hexDigit ((data i).toNat % 16), ' ']

def renderPrintableChars (buffer : Nat → UInt8) (bufsize : Nat) : Text :=
  [' ', '|', ' '] ++ (List.range bufsize).map fun i =>
    if 32 ≤ (buffer i).toNat ∧ (buffer i).toNat < 127 then .ofNat (buffer i).toNat else '.'

def Dump.text (dump : Dump) (packet : Packet) : Text :=
  [' ', '|', ' '] ++ charToHex (fun i => packet (dump.start + i)) dump.length.toNat ++
    renderPrintableChars (fun i => packet (dump.start + i)) dump.length.toNat

def Dump.Received (dump : Dump) (recvDataSize : UInt64) : Prop := ∀ i < dump.length.toNat, dump.start + i < recvDataSize.toNat

def IsTcp (packet : Packet) : Prop := hproto packet = 0x0800 ∧ protocol packet = 6

theorem dump_text_received (dump : Dump) (recvDataSize : UInt64) (packet other : Packet) (received : dump.Received recvDataSize)
    (same : ∀ place < recvDataSize.toNat, packet place = other place) : dump.text packet = dump.text other := by
  have bytes : ∀ i ∈ List.range dump.length.toNat, packet (dump.start + i) = other (dump.start + i) := fun i member =>
    same _ (received i (List.mem_range.mp member))
  have hex : charToHex (fun i => packet (dump.start + i)) dump.length.toNat =
      charToHex (fun i => other (dump.start + i)) dump.length.toNat :=
    List.flatMap_congr fun i member => by simp only [bytes i member]
  have chars : renderPrintableChars (fun i => packet (dump.start + i)) dump.length.toNat =
      renderPrintableChars (fun i => other (dump.start + i)) dump.length.toNat :=
    congrArg _ (List.map_congr_left fun i member => by simp only [bytes i member])
  rw [Dump.text, Dump.text, hex, chars]

theorem tcp_case (packet : Packet) : protocolCase packet = 0x0600 ↔ protocol packet = 6 := by
  have bound := (protocol packet).toNat_lt
  rw [protocolCase, ← UInt16.toNat_inj, ← UInt8.toNat_inj, UInt16.toNat_ofNat_of_lt' (by rw [UInt16.size]; omega)]
  have six : (6 : UInt8).toNat = 6 := rfl
  have tcp : (0x0600 : UInt16).toNat = 6 * 256 := rfl
  rw [six, tcp]
  omega

theorem dump_some (packet : Packet) (recvDataSize : UInt64) (dump : Dump) :
    (fctor0 packet recvDataSize).2 = some dump ↔ IsTcp packet ∧ dump = ⟨54, (totLen packet).toUInt64 - 20 - 20⟩ := by
  rw [fctor0, IsTcp, ← tcp_case]
  by_cases arp : hproto packet = 0x0806
  · simp [arp]
  · by_cases ip : hproto packet = 0x0800
    · by_cases tcp : protocolCase packet = 0x0600
      · simp only [if_neg arp, if_pos ip, if_pos tcp, appendIphdr, Option.some.injEq]
        exact ⟨fun same => ⟨⟨ip, tcp⟩, same.symm⟩, fun both => both.2.symm⟩
      · simp [ip, tcp, appendIphdr]
    · by_cases ipv6 : hproto packet = 0x86DD
      · simp [ipv6]
      · simp [arp, ip, ipv6]

-- The length of the payload wraps for a total length below the two headers.
theorem payload_length (packet : Packet) :
    ((totLen packet).toUInt64 - 20 - 20).toNat =
      if 40 ≤ (totLen packet).toNat then (totLen packet).toNat - 40 else UInt64.size - (40 - (totLen packet).toNat) := by
  have bound := (totLen packet).toNat_lt
  have twenty : (20 : UInt64).toNat = 20 := rfl
  rw [UInt64.toNat_sub, UInt64.toNat_sub, UInt16.toNat_toUInt64, twenty, UInt64.size]
  split <;> omega

theorem dump_received_iff (packet : Packet) (recvDataSize : UInt64) :
    (∀ dump, (fctor0 packet recvDataSize).2 = some dump → dump.Received recvDataSize) ↔
      (IsTcp packet → (totLen packet).toNat = 40 ∨ 40 < (totLen packet).toNat ∧ 14 + (totLen packet).toNat ≤ recvDataSize.toNat) := by
  have length := payload_length packet
  have recv := recvDataSize.toNat_lt
  have total := (totLen packet).toNat_lt
  constructor
  · intro inside tcp
    have received := inside _ ((dump_some packet recvDataSize _).mpr ⟨tcp, rfl⟩)
    change ∀ i < ((totLen packet).toUInt64 - 20 - 20).toNat, 54 + i < recvDataSize.toNat at received
    rw [length, UInt64.size] at received
    by_cases headers : 40 ≤ (totLen packet).toNat
    · rw [if_pos headers] at received
      by_cases nothing : (totLen packet).toNat = 40
      · exact .inl nothing
      · have last := received ((totLen packet).toNat - 40 - 1) (by omega)
        exact .inr (by omega)
    · -- The byte behind the frame is dumped, or place 54 is behind it already.
      rw [if_neg headers] at received
      have behind := received (recvDataSize.toNat - 54) (by omega)
      omega
  · intro fits dump dumped i within
    obtain ⟨tcp, rfl⟩ := (dump_some packet recvDataSize dump).mp dumped
    rw [length] at within
    rcases fits tcp with nothing | ⟨more, enough⟩
    · rw [if_pos (by omega)] at within
      omega
    · rw [if_pos (by omega)] at within
      change 54 + i < recvDataSize.toNat
      omega

def shortFrame : Packet := fun place =>
  if place = 12 then 0x08 else if place = 14 then 0x45 else if place = 17 then 60 else if place = 23 then 6
  else if place = 46 then 0x50 else 0

theorem short_frame_overread :
    ¬ ∀ dump, (fctor0 shortFrame 54).2 = some dump → dump.Received 54 := by
  intro inside
  have received := inside ⟨54, 20⟩ (by decide +kernel)
  exact absurd (received 0 (by decide)) (by decide)

end Libx.Net

import Mathlib.Data.List.Basic

set_option autoImplicit false

namespace Libx.Url

abbrev Bytes := List UInt8

def byte (c : Char) : UInt8 := UInt8.ofNat c.toNat

-- char is signed: what a byte is where it is used as an int.
def promoted (b : UInt8) : Int := b.toInt8.toInt

-- The C locale.
def isdigit (ch : Int) : Bool := 48 ≤ ch ∧ ch ≤ 57
def isupper (ch : Int) : Bool := 65 ≤ ch ∧ ch ≤ 90
def islower (ch : Int) : Bool := 97 ≤ ch ∧ ch ≤ 122
def isalnum (ch : Int) : Bool := isdigit ch || isupper ch || islower ch
def tolower (ch : Int) : Int := if isupper ch then ch + 32 else ch

def fromHex (ch : UInt8) : Int8 :=
  .ofInt (if isdigit (promoted ch) then promoted ch - 48 else tolower (promoted ch) - 97 + 10)

-- What operator<< writes with std::hex, std::uppercase, fill '0' and setw( 2 ).
def hexOut (n : Nat) : Bytes := ((Nat.toDigits 16 n).leftpad 2 '0').map fun c => byte c.toUpper

def keeps (c : UInt8) : Bool :=
  isalnum (promoted c) || c = byte '-' || c = byte '_' || c = byte '.' || c = byte '~'

def urlEncode (value : Bytes) : Bytes :=
  value.flatMap fun c => if keeps c then [c] else byte '%' :: hexOut c.toNat

-- h of url_decode: char again after the int arithmetic.
def joined (high low : UInt8) : UInt8 := ((fromHex high).toInt32 <<< 4 ||| (fromHex low).toInt32).toInt8.toUInt8

-- url_decode( std::string ); i[1] and i[2] read the 0 behind the last byte.
def urlDecode : Bytes → Bytes
  | [] => []
  | c :: rest =>
      if c = byte '%' then
        match rest with
        | high :: low :: after =>
            if high ≠ 0 ∧ low ≠ 0 then joined high low :: urlDecode after else urlDecode (high :: low :: after)
        | short => urlDecode short
      else if c = byte '+' then byte ' ' :: urlDecode rest
      else c :: urlDecode rest

def SAFE : List UInt8 := [
  0, 0, 0, 0, 0, 0, 0, 0, 0, 0, 0, 0, 0, 0, 0, 0,
  0, 0, 0, 0, 0, 0, 0, 0, 0, 0, 0, 0, 0, 0, 0, 0,
  0, 0, 0, 0, 0, 0, 0, 0, 0, 0, 0, 0, 0, 0, 0, 0,
  1, 1, 1, 1, 1, 1, 1, 1, 1, 1, 0, 0, 0, 0, 0, 0,
  0, 1, 1, 1, 1, 1, 1, 1, 1, 1, 1, 1, 1, 1, 1, 1,
  1, 1, 1, 1, 1, 1, 1, 1, 1, 1, 1, 0, 0, 0, 0, 0,
  0, 1, 1, 1, 1, 1, 1, 1, 1, 1, 1, 1, 1, 1, 1, 1,
  1, 1, 1, 1, 1, 1, 1, 1, 1, 1, 1, 0, 0, 0, 0, 0,
  0, 0, 0, 0, 0, 0, 0, 0, 0, 0, 0, 0, 0, 0, 0, 0,
  0, 0, 0, 0, 0, 0, 0, 0, 0, 0, 0, 0, 0, 0, 0, 0,
  0, 0, 0, 0, 0, 0, 0, 0, 0, 0, 0, 0, 0, 0, 0, 0,
  0, 0, 0, 0, 0, 0, 0, 0, 0, 0, 0, 0, 0, 0, 0, 0,
  0, 0, 0, 0, 0, 0, 0, 0, 0, 0, 0, 0, 0, 0, 0, 0,
  0, 0, 0, 0, 0, 0, 0, 0, 0, 0, 0, 0, 0, 0, 0, 0,
  0, 0, 0, 0, 0, 0, 0, 0, 0, 0, 0, 0, 0, 0, 0, 0,
  0, 0, 0, 0, 0, 0, 0, 0, 0, 0, 0, 0, 0, 0, 0, 0]

def HEX2DEC : List Int8 := [
  -1, -1, -1, -1, -1, -1, -1, -1, -1, -1, -1, -1, -1, -1, -1, -1,
  -1, -1, -1, -1, -1, -1, -1, -1, -1, -1, -1, -1, -1, -1, -1, -1,
  -1, -1, -1, -1, -1, -1, -1, -1, -1, -1, -1, -1, -1, -1, -1, -1,
  0, 1, 2, 3, 4, 5, 6, 7, 8, 9, -1, -1, -1, -1, -1, -1,
  -1, 10, 11, 12, 13, 14, 15, -1, -1, -1, -1, -1, -1, -1, -1, -1,
  -1, -1, -1, -1, -1, -1, -1, -1, -1, -1, -1, -1, -1, -1, -1, -1,
  -1, 10, 11, 12, 13, 14, 15, -1, -1, -1, -1, -1, -1, -1, -1, -1,
  -1, -1, -1, -1, -1, -1, -1, -1, -1, -1, -1, -1, -1, -1, -1, -1,
  -1, -1, -1, -1, -1, -1, -1, -1, -1, -1, -1, -1, -1, -1, -1, -1,
  -1, -1, -1, -1, -1, -1, -1, -1, -1, -1, -1, -1, -1, -1, -1, -1,
  -1, -1, -1, -1, -1, -1, -1, -1, -1, -1, -1, -1, -1, -1, -1, -1,
  -1, -1, -1, -1, -1, -1, -1, -1, -1, -1, -1, -1, -1, -1, -1, -1,
  -1, -1, -1, -1, -1, -1, -1, -1, -1, -1, -1, -1, -1, -1, -1, -1,
  -1, -1, -1, -1, -1, -1, -1, -1, -1, -1, -1, -1, -1, -1, -1, -1,
  -1, -1, -1, -1, -1, -1, -1, -1, -1, -1, -1, -1, -1, -1, -1, -1,
  -1, -1, -1, -1, -1, -1, -1, -1, -1, -1, -1, -1, -1, -1, -1, -1]

def DEC2HEX : Bytes := "0123456789ABCDEF".toList.map byte

def uriEncode (src : Bytes) : Bytes :=
  src.flatMap fun c =>
    if SAFE.getD c.toNat 0 ≠ 0 then [c]
    else [byte '%', DEC2HEX.getD (c >>> 4).toNat 0, DEC2HEX.getD (c &&& 0x0F).toNat 0]

def hex2dec (c : UInt8) : Int8 := HEX2DEC.getD c.toNat 0

def added (dec1 dec2 : Int8) : UInt8 := (dec1.toInt32 <<< 4 + dec2.toInt32).toInt8.toUInt8

def plusToSpace (c : UInt8) : UInt8 := if c = byte '+' then byte ' ' else c

-- The first loop runs while more than two bytes are left, the second one over the rest.
def uriDecode : Bytes → Bytes
  | c :: next :: last :: rest =>
      if c = byte '%' ∧ hex2dec next ≠ -1 ∧ hex2dec last ≠ -1 then added (hex2dec next) (hex2dec last) :: uriDecode rest
      else plusToSpace c :: uriDecode (next :: last :: rest)
  | short => short.map plusToSpace

end Libx.Url

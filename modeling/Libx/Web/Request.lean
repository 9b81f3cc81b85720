import Libx.Url.Model
import Libx.Lib.Fallible

set_option autoImplicit false

namespace Libx.Web

open Url

inductive Fault where
  | outOfRange
  | length
  | outOfFuel
deriving DecidableEq, Repr

-- std::string( data + begin, end - begin ): the difference is a size_t.
def stringBetween (data : Bytes) (begin_ end_ : Nat) : Except Fault Bytes :=
  if begin_ ≤ end_ ∧ end_ ≤ data.length then .ok ((data.drop begin_).take (end_ - begin_)) else .error .length

-- tokenize with a token that makes a string; i is a uint16_t, so that it wraps.
def tokenize (separator : UInt8) (data : Bytes) : Nat → UInt16 → Nat → Except Fault (List Bytes)
  | 0, _, _ => .error .outOfFuel
  | fuel + 1, i, tagPos =>
      if i.toNat < data.length then
        if data.getD i.toNat 0 = separator then do
          let token ← stringBetween data tagPos i.toNat
          let rest ← tokenize separator data fuel (i + 1) (i.toNat + 1)
          return token :: rest
        else tokenize separator data fuel (i + 1) tagPos
      else if tagPos ≠ data.length then do
        let token ← stringBetween data tagPos data.length
        return [token]
      else .ok []

def tokenPair (data : Bytes) (begin_ equal end_ : Nat) : Except Fault (Bytes × Bytes) := do
  let tag ← stringBetween data begin_ equal
  let val ← stringBetween data (equal + 1) end_
  return (tag, val)

-- The outer and the inner loop of tokenize_tag_val, which share i.
mutual
def scanTags (separator : UInt8) (data : Bytes) (len : UInt16) : Nat → UInt16 → Nat → Nat → Except Fault (List (Bytes × Bytes))
  | 0, _, _, _ => .error .outOfFuel
  | fuel + 1, i, tagPos, valPos =>
      if i < len then
        if data.getD i.toNat 0 = byte '=' then scanVal separator data len fuel i tagPos i.toNat
        else scanTags separator data len fuel (i + 1) tagPos valPos
      else do
        let last ← tokenPair data tagPos valPos len.toNat
        return [last]
def scanVal (separator : UInt8) (data : Bytes) (len : UInt16) : Nat → UInt16 → Nat → Nat → Except Fault (List (Bytes × Bytes))
  | 0, _, _, _ => .error .outOfFuel
  | fuel + 1, i, tagPos, valPos =>
      if i < len then
        if data.getD i.toNat 0 = separator then do
          let pair ← tokenPair data tagPos valPos i.toNat
          let rest ← scanTags separator data len fuel (i + 1) (i.toNat + 1) valPos
          return pair :: rest
        else scanVal separator data len fuel (i + 1) tagPos valPos
      else scanTags separator data len fuel (i + 1) tagPos valPos
end

def tokenizeTagVal (fuel : Nat) (separator : UInt8) (data : Bytes) (len : Nat) : Except Fault (List (Bytes × Bytes)) :=
  scanTags separator data (.ofNat len) fuel 0 0 0

-- What htmlclients::handle_read prints before it calls send.
structure Request where
  args : List Bytes
  host : Bytes
  queries : List (Bytes × Bytes)
deriving DecidableEq, Repr

def firstLine (buf : Bytes) : Bytes := buf.takeWhile fun c => c ≠ byte '\r' ∧ c ≠ byte '\n'

-- The part of handle_read behind the decoding of args[1]; find gives npos, and
-- no string has npos characters, where there is no '?'.
def readTarget (fuel : Nat) (args : List Bytes) (target : Bytes) : Except Fault Request :=
  match target.findIdx? (· = byte '?') with
  | none => .error .length
  | some pos => do
      let host ← stringBetween target 0 pos
      let queries ← tokenizeTagVal fuel (byte '&') (target.drop (pos + 1)) (target.length - pos - 1)
      return ⟨args.set 1 target, host, queries⟩

-- htmlclients::handle_read for an open client, up to the call of send.
def handleRead (fuel : Nat) (buf : Bytes) : Except Fault Request := do
  let args ← tokenize (byte ' ') (firstLine buf) fuel 0 0
  match args[1]? with
  | none => .error .outOfRange
  | some arg => readTarget fuel args (urlDecode arg)

end Libx.Web

import Libx.Argon2.Blake2b
import Libx.Argon2.FirstPass
import Libx.Argon2.HashString

set_option autoImplicit false

namespace Libx.Argon2

open Fallible

def longLoop (toproduce : Nat) (buffer : Bytes) : Option Bytes :=
  if outBytes < toproduce then do
    let buffer ← blake2b outBytes buffer []
    let rest ← longLoop (toproduce - outBytes / 2) buffer
    pure (buffer.take (outBytes / 2) ++ rest)
  else blake2b toproduce buffer []
termination_by toproduce
decreasing_by
  unfold outBytes at *
  omega

def digest (outlen : Nat) (pieces : List Bytes) : Option Bytes := do
  let S ← blake2bInit outlen
  let S ← pieces.foldlM blake2bUpdate S
  blake2bFinal S outlen

def blake2bLong (outlen : Nat) (pin : Bytes) : Option Bytes :=
  if uint32Max < outlen then none
  else if outlen ≤ outBytes then digest outlen [store32 (.ofNat outlen), pin]
  else do
    let buffer ← digest outBytes [store32 (.ofNat outlen), pin]
    let rest ← longLoop (outlen - outBytes / 2) buffer
    pure (buffer.take (outBytes / 2) ++ rest)

def loadBlock (input : Bytes) : Block := Vector.ofFn fun i => load64 (input.drop (8 * i))
def storeBlock (src : Block) : Bytes := src.toList.flatMap store64

def blockSize : Nat := 1024
def prehashDigestLength : Nat := 64

def flagClearPassword : UInt32 := 1
def flagClearSecret : UInt32 := 2

def Buffer.pieces (buffer : Buffer) : List Bytes := if buffer.data = none then [] else [buffer.bytes]

def Buffer.wiped (buffer : Buffer) : Buffer :=
  ⟨buffer.data.map fun data => List.replicate buffer.len.toNat 0 ++ data.drop buffer.len.toNat, 0⟩

def Context.wiped (context : Context) : Context :=
  { context with
    pwd := if context.pwd.data ≠ none ∧ context.flags &&& flagClearPassword ≠ 0 then context.pwd.wiped else context.pwd
    secret := if context.secret.data ≠ none ∧ context.flags &&& flagClearSecret ≠ 0 then context.secret.wiped else context.secret }

def prehashPieces (context : Context) (type : Argon2Type) : List Bytes :=
  [store32 context.lanes, store32 context.out.len, store32 context.mCost, store32 context.tCost, store32 context.version,
    store32 type.number.toUInt32, store32 context.pwd.len] ++ context.pwd.pieces ++ [store32 context.salt.len] ++ context.salt.pieces ++
    [store32 context.secret.len] ++ context.secret.pieces ++ [store32 context.ad.len] ++ context.ad.pieces

def initialHash (context : Context) (type : Argon2Type) : Bytes :=
  (digest prehashDigestLength (prehashPieces context type)).getD []

def fillFirstBlocks (blockhash : Bytes) (inst : Instance) (memory : Memory) : Memory :=
  (List.range inst.lanes.toNat).foldl (fun memory l =>
    let first := (blake2bLong blockSize (blockhash ++ store32 0 ++ store32 (.ofNat l))).getD []
    let second := (blake2bLong blockSize (blockhash ++ store32 1 ++ store32 (.ofNat l))).getD []
    Function.update (Function.update memory (l * inst.laneLength.toNat) (loadBlock first)) (l * inst.laneLength.toNat + 1)
      (loadBlock second)) memory

def lastBlock (inst : Instance) (memory : Memory) (l : Nat) : Block := memory (l * inst.laneLength.toNat + (inst.laneLength.toNat - 1))

def finalize (context : Context) (inst : Instance) (memory : Memory) : Context :=
  let blockhash := (List.range (inst.lanes.toNat - 1)).foldl (fun blockhash l => xorBlock blockhash (lastBlock inst memory (l + 1)))
    (lastBlock inst memory 0)
  { context with out := ⟨some ((blake2bLong context.out.len.toNat (storeBlock blockhash)).getD []), context.out.len⟩ }

def instanceOf (context : Context) (type : Argon2Type) : Instance :=
  let memoryBlocks := if context.mCost < 2 * syncPoints * context.lanes then 2 * syncPoints * context.lanes else context.mCost
  let segmentLength := memoryBlocks / (context.lanes * syncPoints)
  { version := context.version
    passes := context.tCost
    memoryBlocks := segmentLength * (context.lanes * syncPoints)
    segmentLength := segmentLength
    laneLength := segmentLength * syncPoints
    lanes := context.lanes
    threads := if context.lanes < context.threads then context.lanes else context.threads
    type := type }

-- What is not determined by the arguments: the order in which the threads of a
-- slice come to their turns, and what the allocated memory holds.
structure Surroundings where
  schedule : (inst : Instance) → Nat × Nat → List (Fin inst.lanes.toNat)
  memory : Memory

variable (fillBlock : Block → Block → Block → Bool → Block)

def fillMemoryBlocks (inst : Instance) (schedule : Nat × Nat → List (Fin inst.lanes.toNat)) (memory : Memory) : Option Memory :=
  if inst.threads = 1 then some (fillMemoryBlocksSt fillBlock inst memory) else fillMemoryBlocksMt fillBlock inst schedule memory

-- None where a thread is still to be joined.
def argon2Ctx (around : Surroundings) (context : Context) (type : Argon2Type) : Option (Except ErrorCode Context) :=
  match validateInputs context with
  | .error code => some (.error code)
  | .ok _ =>
      let inst := instanceOf context type
      let memory := fillFirstBlocks (initialHash context type) inst around.memory
      (fillMemoryBlocks fillBlock inst (around.schedule inst) memory).map fun memory => .ok (finalize context.wiped inst memory)

def hashContext (tCost mCost parallelism : UInt32) (pwd : Option Bytes) (pwdlen : Nat) (salt : Option Bytes) (saltlen hashlen : Nat)
    (version : UInt32) : Context :=
  { out := ⟨some (List.replicate hashlen 0), .ofNat hashlen⟩, pwd := ⟨pwd, .ofNat pwdlen⟩, salt := ⟨salt, .ofNat saltlen⟩
    secret := .null, ad := .null, tCost := tCost, mCost := mCost, lanes := parallelism, threads := parallelism, version := version
    allocateCbk := false, freeCbk := false, flags := defaultFlags }

-- The arrays may be NULL. The raw hash and the encoded one are given back where
-- they are asked for, the latter by a space that is not 0.
def argon2Hash (around : Surroundings) (tCost mCost parallelism : UInt32) (pwd : Option Bytes) (pwdlen : Nat) (salt : Option Bytes)
    (saltlen hashlen encodedlen : Nat) (type : Argon2Type) (version : UInt32) : Option (Except ErrorCode (Bytes × Option Bytes)) :=
  if maxPwdLength.toNat < pwdlen then some (.error .pwdTooLong)
  else if maxSaltLength.toNat < saltlen then some (.error .saltTooLong)
  else if maxOutlen.toNat < hashlen then some (.error .outputTooLong)
  else if hashlen < minOutlen.toNat then some (.error .outputTooShort)
  else
    (argon2Ctx fillBlock around (hashContext tCost mCost parallelism pwd pwdlen salt saltlen hashlen version) type).map fun result => do
      let context ← result
      if encodedlen = 0 then pure (context.out.bytes, none)
      else
        match encodeString encodedlen context type with
        | .error _ => throw .encodingFail
        | .ok encoded => pure (context.out.bytes, some encoded)

def argon2Compare (b1 b2 : Bytes) : BitVec 32 :=
  let d : UInt8 := (b1.zip b2).foldl (fun d pair => d ||| (pair.1 ^^^ pair.2)) 0
  (1 &&& ((d.toBitVec.setWidth 32 - 1).sshiftRight 8)) - 1

def argon2VerifyCtx (around : Surroundings) (context : Context) (hash : Bytes) (type : Argon2Type) : Option (Except ErrorCode Unit) :=
  (argon2Ctx fillBlock around context type).map fun result => do
    let context ← result
    if argon2Compare hash context.out.bytes ≠ 0 then throw .verifyMismatch

-- No field can be longer than the encoded text.
def verifyContext (maxFieldLen : Nat) (pwd : Option Bytes) (pwdlen : Nat) : Context :=
  let field : Buffer := ⟨some (List.replicate maxFieldLen 0), .ofNat maxFieldLen⟩
  { out := field, pwd := ⟨pwd, .ofNat pwdlen⟩, salt := field, secret := .null, ad := .null, tCost := 0, mCost := 0, lanes := 0
    threads := 0, version := 0, allocateCbk := false, freeCbk := false, flags := defaultFlags }

def Context.newBuffer (ctx : Context) : Context := { ctx with out := ⟨some (List.replicate ctx.out.len.toNat 0), ctx.out.len⟩ }

def argon2Verify (around : Surroundings) (encoded : Bytes) (pwd : Option Bytes) (pwdlen : Nat) (type : Argon2Type) :
    Option (Except ErrorCode Unit) :=
  if maxPwdLength.toNat < pwdlen then some (.error .pwdTooLong)
  else if uint32Max < encoded.length then some (.error .decodingFail)
  else
    match decodeString (verifyContext encoded.length pwd pwdlen) encoded type with
    | .error code => some (.error code)
    | .ok ctx => argon2VerifyCtx fillBlock around ctx.newBuffer ctx.out.bytes type

end Libx.Argon2

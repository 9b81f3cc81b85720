import Libx.Argon2.Base64
import Libx.Lib.Fallible

set_option autoImplicit false

namespace Libx.Argon2

inductive ErrorCode where
  | outputPtrNull
  | outputTooShort
  | outputTooLong
  | pwdTooShort
  | pwdTooLong
  | saltTooShort
  | saltTooLong
  | adTooShort
  | adTooLong
  | secretTooShort
  | secretTooLong
  | timeTooSmall
  | timeTooLarge
  | memoryTooLittle
  | memoryTooMuch
  | lanesTooFew
  | lanesTooMany
  | pwdPtrMismatch
  | saltPtrMismatch
  | secretPtrMismatch
  | adPtrMismatch
  | freeMemoryCbkNull
  | allocateMemoryCbkNull
  | threadsTooFew
  | threadsTooMany
  | encodingFail
  | decodingFail
  | verifyMismatch
deriving DecidableEq

inductive Argon2Type where
  | d
  | i
  | id
deriving DecidableEq

def bytesOf (text : String) : Bytes := text.toList.map fun c => .ofNat c.toNat

def type2string (type : Argon2Type) (uppercase : Bool) : Bytes :=
  match type with
  | .d => bytesOf (if uppercase then "Argon2d" else "argon2d")
  | .i => bytesOf (if uppercase then "Argon2i" else "argon2i")
  | .id => bytesOf (if uppercase then "Argon2id" else "argon2id")

-- A pointer with its length: the whole array behind it, or NULL.
structure Buffer where
  data : Option Bytes
  len : UInt32
deriving DecidableEq

def Buffer.null : Buffer := ⟨none, 0⟩

def Buffer.bytes (buffer : Buffer) : Bytes := (buffer.data.getD []).take buffer.len.toNat

def Buffer.Sound (buffer : Buffer) : Prop := ∀ data, buffer.data = some data → buffer.len.toNat ≤ data.length

structure Context where
  out : Buffer
  pwd : Buffer
  salt : Buffer
  secret : Buffer
  ad : Buffer
  tCost : UInt32
  mCost : UInt32
  lanes : UInt32
  threads : UInt32
  version : UInt32
  allocateCbk : Bool
  freeCbk : Bool
  flags : UInt32
deriving DecidableEq

def minLanes : UInt32 := 1
def maxLanes : UInt32 := 0xFFFFFF
def minThreads : UInt32 := 1
def maxThreads : UInt32 := 0xFFFFFF
def syncPoints : UInt32 := 4
def minOutlen : UInt32 := 4
def maxOutlen : UInt32 := 0xFFFFFFFF
def minMemory : UInt32 := 2 * syncPoints
def maxMemory : UInt32 := 0xFFFFFFFF
def minTime : UInt32 := 1
def maxTime : UInt32 := 0xFFFFFFFF
def minPwdLength : UInt32 := 0
def maxPwdLength : UInt32 := 0xFFFFFFFF
def minAdLength : UInt32 := 0
def maxAdLength : UInt32 := 0xFFFFFFFF
def minSaltLength : UInt32 := 8
def maxSaltLength : UInt32 := 0xFFFFFFFF
def minSecret : UInt32 := 0
def maxSecret : UInt32 := 0xFFFFFFFF
def version10 : UInt32 := 0x10
def versionNumber : UInt32 := 0x13
def defaultFlags : UInt32 := 0

def refuse (bad : Prop) [Decidable bad] (code : ErrorCode) : Except ErrorCode Unit := if bad then .error code else .ok ()

def mismatch (buffer : Buffer) : Prop := buffer.data = none ∧ buffer.len ≠ 0
def within (buffer : Buffer) (bad : Prop) : Prop := buffer.data ≠ none ∧ bad

instance (buffer : Buffer) : Decidable (mismatch buffer) := inferInstanceAs (Decidable (_ ∧ _))
instance (buffer : Buffer) (bad : Prop) [Decidable bad] : Decidable (within buffer bad) := inferInstanceAs (Decidable (_ ∧ _))

-- The product with eight wraps, as it does in the code.
def validateInputs (context : Context) : Except ErrorCode Unit := do
  refuse (context.out.data = none) .outputPtrNull
  refuse (context.out.len < minOutlen) .outputTooShort
  refuse (maxOutlen < context.out.len) .outputTooLong
  refuse (mismatch context.pwd) .pwdPtrMismatch
  refuse (context.pwd.len < minPwdLength) .pwdTooShort
  refuse (maxPwdLength < context.pwd.len) .pwdTooLong
  refuse (mismatch context.salt) .saltPtrMismatch
  refuse (context.salt.len < minSaltLength) .saltTooShort
  refuse (maxSaltLength < context.salt.len) .saltTooLong
  refuse (mismatch context.secret) .secretPtrMismatch
  refuse (within context.secret (context.secret.len < minSecret)) .secretTooShort
  refuse (within context.secret (maxSecret < context.secret.len)) .secretTooLong
  refuse (mismatch context.ad) .adPtrMismatch
  refuse (within context.ad (context.ad.len < minAdLength)) .adTooShort
  refuse (within context.ad (maxAdLength < context.ad.len)) .adTooLong
  refuse (context.mCost < minMemory) .memoryTooLittle
  refuse (maxMemory < context.mCost) .memoryTooMuch
  refuse (context.mCost < 8 * context.lanes) .memoryTooLittle
  refuse (context.tCost < minTime) .timeTooSmall
  refuse (maxTime < context.tCost) .timeTooLarge
  refuse (context.lanes < minLanes) .lanesTooFew
  refuse (maxLanes < context.lanes) .lanesTooMany
  refuse (context.threads < minThreads) .threadsTooFew
  refuse (maxThreads < context.threads) .threadsTooMany
  refuse (context.allocateCbk = true ∧ context.freeCbk = false) .freeMemoryCbkNull
  refuse (context.allocateCbk = false ∧ context.freeCbk = true) .allocateMemoryCbkNull

-- What is left of the checks where no 32-bit value can fail them.
structure Context.Valid (context : Context) : Prop where
  out : context.out.data ≠ none
  outlen : 4 ≤ context.out.len.toNat
  pwd : context.pwd.data = none → context.pwd.len = 0
  salt : context.salt.data ≠ none
  saltlen : 8 ≤ context.salt.len.toNat
  secret : context.secret.data = none → context.secret.len = 0
  ad : context.ad.data = none → context.ad.len = 0
  memory : 8 ≤ context.mCost.toNat
  share : 8 * context.lanes.toNat ≤ context.mCost.toNat
  time : 1 ≤ context.tCost.toNat
  lanes : 1 ≤ context.lanes.toNat ∧ context.lanes.toNat ≤ 0xFFFFFF
  threads : 1 ≤ context.threads.toNat ∧ context.threads.toNat ≤ 0xFFFFFF
  callbacks : context.allocateCbk = context.freeCbk

theorem refuse_ok_iff (bad : Prop) [Decidable bad] (code : ErrorCode) (done : Unit) : refuse bad code = .ok done ↔ ¬ bad := by
  rw [refuse]
  split
  · rename_i fails
    simp [fails]
  · rename_i passes
    simp [passes]

theorem below_iff (x y : UInt32) : ¬ x < y ↔ y.toNat ≤ x.toNat := by
  rw [UInt32.lt_iff_toNat_lt, Nat.not_lt]

theorem not_above (x : UInt32) : ¬ (0xFFFFFFFF : UInt32) < x := (below_iff _ x).mpr (Nat.le_of_lt_succ x.toNat_lt)

theorem product_eight (lanes : UInt32) (few : lanes.toNat ≤ 0xFFFFFF) : (8 * lanes).toNat = 8 * lanes.toNat := by
  rw [UInt32.toNat_mul]
  exact Nat.mod_eq_of_lt (by show 8 * _ < _; omega)

theorem not_mismatch (buffer : Buffer) : ¬ mismatch buffer ↔ (buffer.data = none → buffer.len = 0) := by
  rw [mismatch, not_and, not_not]

theorem callbacks_iff (allocate free : Bool) :
    ¬ (allocate = true ∧ free = false) ∧ ¬ (allocate = false ∧ free = true) ↔ allocate = free := by
  cases allocate <;> cases free <;> decide

theorem not_below_zero (x : UInt32) : ¬ x < 0 := (below_iff x 0).mpr (Nat.zero_le _)

-- The salt has a least length, so that its pointer is not NULL; the threads are
-- as many as the code allows lanes.
theorem validate_inputs_ok (context : Context) : validateInputs context = .ok () ↔ context.Valid := by
  simp only [validateInputs, Fallible.bind_ok_iff, refuse_ok_iff, exists_const]
  simp only [within, maxOutlen, maxPwdLength, maxSaltLength, maxSecret, maxAdLength, maxMemory, maxTime, minPwdLength, minSecret,
    minAdLength, not_above, not_below_zero, not_false_eq_true, and_false, true_and, not_mismatch, callbacks_iff, below_iff]
  constructor
  · rintro ⟨out, outlen, pwd, salt, saltlen, secret, ad, memory, share, time, fewest, most, fewestThreads, mostThreads, callbacks⟩
    have filled : context.salt.data ≠ none := by
      intro null
      rw [salt null] at saltlen
      exact absurd saltlen (by decide)
    rw [product_eight _ most] at share
    exact ⟨out, outlen, pwd, filled, saltlen, secret, ad, memory, share, time, ⟨fewest, most⟩, ⟨fewestThreads, mostThreads⟩, callbacks⟩
  · intro valid
    refine ⟨valid.out, valid.outlen, valid.pwd, fun null => absurd null valid.salt, valid.saltlen, valid.secret, valid.ad, valid.memory,
      ?_, valid.time, valid.lanes.1, valid.lanes.2, valid.threads.1, valid.threads.2, valid.callbacks⟩
    rw [product_eight _ valid.lanes.2]
    exact valid.share

end Libx.Argon2

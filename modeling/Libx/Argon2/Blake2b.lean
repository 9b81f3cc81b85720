import Libx.Argon2.Filling
import Libx.Lib.Absorb

set_option autoImplicit false

namespace Libx.Argon2

def blake2bIV : Vector UInt64 8 :=
  #v[0x6a09e667f3bcc908, 0xbb67ae8584caa73b, 0x3c6ef372fe94f82b, 0xa54ff53a5f1d36f1, 0x510e527fade682d1, 0x9b05688c2b3e6c1f,
    0x1f83d9abfb41bd6b, 0x5be0cd19137e2179]

section Rounds

-- The numerals of the schedule.
local instance sixteen : NeZero 16 := ⟨by decide⟩

def blake2bSigma : Vector (Vector (Fin 16) 16) 12 :=
  #v[#v[0, 1, 2, 3, 4, 5, 6, 7, 8, 9, 10, 11, 12, 13, 14, 15],
    #v[14, 10, 4, 8, 9, 15, 13, 6, 1, 12, 0, 2, 11, 7, 5, 3],
    #v[11, 8, 12, 0, 5, 2, 15, 13, 10, 14, 3, 6, 7, 1, 9, 4],
    #v[7, 9, 3, 1, 13, 12, 11, 14, 2, 6, 5, 10, 4, 0, 15, 8],
    #v[9, 0, 5, 7, 2, 4, 10, 15, 14, 1, 11, 12, 6, 8, 3, 13],
    #v[2, 12, 6, 10, 0, 11, 8, 3, 4, 13, 7, 5, 15, 14, 1, 9],
    #v[12, 5, 1, 15, 14, 13, 4, 10, 0, 7, 6, 3, 9, 2, 8, 11],
    #v[13, 11, 7, 14, 12, 1, 3, 9, 5, 0, 15, 4, 8, 6, 2, 10],
    #v[6, 15, 14, 9, 11, 3, 0, 8, 12, 2, 13, 7, 1, 4, 10, 5],
    #v[10, 2, 8, 4, 7, 6, 1, 5, 15, 11, 9, 14, 3, 12, 13, 0],
    #v[0, 1, 2, 3, 4, 5, 6, 7, 8, 9, 10, 11, 12, 13, 14, 15],
    #v[14, 10, 4, 8, 9, 15, 13, 6, 1, 12, 0, 2, 11, 7, 5, 3]]

-- The buffer up to its length buflen.
structure Blake2bState where
  h : Vector UInt64 8
  t0 : UInt64
  t1 : UInt64
  f0 : UInt64
  f1 : UInt64
  buf : Bytes
  outlen : Nat
  lastNode : Bool

def blockBytes : Nat := 128
def outBytes : Nat := 64
def keyBytes : Nat := 64

def load64 (bytes : Bytes) : UInt64 := (bytes.take 8).foldr (fun byte word => word <<< 8 ||| byte.toUInt64) 0

def store64 (w : UInt64) : Bytes := (List.range 8).map fun i => (w >>> (8 * i).toUInt64).toUInt8
def store32 (w : UInt32) : Bytes := (List.range 4).map fun i => (w >>> (8 * i).toUInt32).toUInt8

def incrementCounter (S : Blake2bState) (inc : UInt64) : Blake2bState :=
  let t0 := S.t0 + inc
  { S with t0 := t0, t1 := S.t1 + if t0 < inc then 1 else 0 }

def setLastblock (S : Blake2bState) : Blake2bState :=
  { S with f1 := if S.lastNode then 0xFFFFFFFFFFFFFFFF else S.f1, f0 := 0xFFFFFFFFFFFFFFFF }

def mixG (m : Vector UInt64 16) (r : Fin 12) (x y : Fin 16) (a b c d : Fin 16) (v : Vector UInt64 16) : Vector UInt64 16 :=
  let va := v[a] + v[b] + m[blake2bSigma[r][x]]
  let vd := rotr64 (v[d] ^^^ va) 32
  let vc := v[c] + vd
  let vb := rotr64 (v[b] ^^^ vc) 24
  let va := va + vb + m[blake2bSigma[r][y]]
  let vd := rotr64 (vd ^^^ va) 16
  let vc := vc + vd
  let vb := rotr64 (vb ^^^ vc) 63
  (((v.set a va).set b vb).set c vc).set d vd

def round (m : Vector UInt64 16) (v : Vector UInt64 16) (r : Fin 12) : Vector UInt64 16 :=
  let v := mixG m r 0 1 0 4 8 12 v
  let v := mixG m r 2 3 1 5 9 13 v
  let v := mixG m r 4 5 2 6 10 14 v
  let v := mixG m r 6 7 3 7 11 15 v
  let v := mixG m r 8 9 0 5 10 15 v
  let v := mixG m r 10 11 1 6 11 12 v
  let v := mixG m r 12 13 2 7 8 13 v
  mixG m r 14 15 3 4 9 14 v

end Rounds

def compress (S : Blake2bState) (block : Bytes) : Blake2bState :=
  let m : Vector UInt64 16 := Vector.ofFn fun i => load64 (block.drop (8 * i))
  let v : Vector UInt64 16 := S.h ++ #v[blake2bIV[0], blake2bIV[1], blake2bIV[2], blake2bIV[3], blake2bIV[4] ^^^ S.t0,
    blake2bIV[5] ^^^ S.t1, blake2bIV[6] ^^^ S.f0, blake2bIV[7] ^^^ S.f1]
  let v := (List.finRange 12).foldl (round m) v
  { S with h := Vector.ofFn fun i : Fin 8 => S.h[i] ^^^ v[i.val] ^^^ v[i.val + 8] }

def blake2bInitParam (digestLength keyLength : UInt8) : Blake2bState :=
  let fanout : UInt64 := 1
  let depth : UInt64 := 1
  let first := digestLength.toUInt64 ||| keyLength.toUInt64 <<< 8 ||| fanout <<< 16 ||| depth <<< 24
  ⟨blake2bIV.set 0 (blake2bIV[0] ^^^ first), 0, 0, 0, 0, [], digestLength.toNat, false⟩

-- None is the result -1.
def blake2bInit (outlen : Nat) : Option Blake2bState :=
  if outlen = 0 ∨ outBytes < outlen then none else some (blake2bInitParam (.ofNat outlen) 0)

def updateLoop (S : Blake2bState) (pin : Bytes) : Blake2bState × Bytes :=
  if blockBytes < pin.length then
    updateLoop (compress (incrementCounter S (.ofNat blockBytes)) (pin.take blockBytes)) (pin.drop blockBytes)
  else (S, pin)
termination_by pin.length
decreasing_by
  unfold blockBytes at *
  rw [List.length_drop]
  omega

def blake2bUpdate (S : Blake2bState) (pin : Bytes) : Option Blake2bState :=
  if pin = [] then some S
  else if S.f0 ≠ 0 then none
  else if blockBytes < S.buf.length + pin.length then
    let fill := blockBytes - S.buf.length
    let S := { compress (incrementCounter S (.ofNat blockBytes)) (S.buf ++ pin.take fill) with buf := [] }
    let (S, pin) := updateLoop S (pin.drop fill)
    some { S with buf := S.buf ++ pin }
  else some { S with buf := S.buf ++ pin }

def blake2bInitKey (outlen : Nat) (key : Bytes) : Option Blake2bState :=
  if outlen = 0 ∨ outBytes < outlen then none
  else if key = [] ∨ keyBytes < key.length then none
  else blake2bUpdate (blake2bInitParam (.ofNat outlen) (.ofNat key.length)) (key ++ List.replicate (blockBytes - key.length) 0)

def blake2bFinal (S : Blake2bState) (outlen : Nat) : Option Bytes :=
  if outlen < S.outlen then none
  else if S.f0 ≠ 0 then none
  else
    let S := setLastblock (incrementCounter S (.ofNat S.buf.length))
    let S := compress S (S.buf ++ List.replicate (blockBytes - S.buf.length) 0)
    some ((S.h.toList.flatMap store64).take S.outlen)

def blake2b (outlen : Nat) (pin key : Bytes) : Option Bytes := do
  if outlen = 0 ∨ outBytes < outlen then none
  if keyBytes < key.length then none
  let S ← if key = [] then blake2bInit outlen else blake2bInitKey outlen key
  let S ← blake2bUpdate S pin
  blake2bFinal S outlen

section Streaming

open Absorb

def absorbBlock (S : Blake2bState) (block : Bytes) : Blake2bState := compress (incrementCounter S (.ofNat blockBytes)) block

theorem update_loop_absorb (S : Blake2bState) (pin : Bytes) : updateLoop S pin = absorb blockBytes absorbBlock S pin := by
  induction S, pin using updateLoop.induct with
  | case1 S pin more ih => rw [updateLoop, if_pos more, absorb_whole blockBytes (by decide) absorbBlock S pin more, ih, absorbBlock]
  | case2 S pin few => rw [updateLoop, if_neg few, absorb_held blockBytes absorbBlock S pin (Nat.not_lt.mp few)]

def Blake2bState.bare (S : Blake2bState) : Blake2bState := { S with buf := [] }
def Blake2bState.holding (fed : Blake2bState × Bytes) : Blake2bState := { fed.1 with buf := fed.2 }

def Blake2bState.counted (S : Blake2bState) : Nat := S.t0.toNat + 2 ^ 64 * S.t1.toNat

theorem increment_counted (S : Blake2bState) (inc : UInt64) :
    (incrementCounter S inc).counted % 2 ^ 128 = (S.counted + inc.toNat) % 2 ^ 128 := by
  have t0Fits := S.t0.toNat_lt
  have t1Fits := S.t1.toNat_lt
  have incFits := inc.toNat_lt
  have low : (S.t0 + inc).toNat = (S.t0.toNat + inc.toNat) % 2 ^ 64 := UInt64.toNat_add _ _
  show ((S.t0 + inc).toNat + 2 ^ 64 * (S.t1 + if S.t0 + inc < inc then 1 else 0).toNat) % 2 ^ 128 = _
  rw [Blake2bState.counted]
  split_ifs with carry
  · rw [UInt64.lt_iff_toNat_lt, low] at carry
    have high : (S.t1 + 1).toNat = (S.t1.toNat + 1) % 2 ^ 64 := UInt64.toNat_add _ _
    rw [low, high]
    omega
  · rw [UInt64.lt_iff_toNat_lt, low] at carry
    rw [UInt64.add_zero, low]
    omega

def Fed (S : Blake2bState) (total : Nat) : Prop := S.f0 = 0 ∧ S.buf = [] ∧ S.counted % 2 ^ 128 = total % 2 ^ 128

theorem absorb_fed (S : Blake2bState) (pending : Bytes) (total : Nat) (fed : Fed S total) :
    ∃ taken, taken + (absorb blockBytes absorbBlock S pending).2.length = pending.length ∧
      Fed (absorb blockBytes absorbBlock S pending).1 (total + taken) := by
  refine absorb_measure blockBytes (by decide) absorbBlock Fed ?_ S pending total fed
  rintro S block total _ ⟨fresh, bare, counted⟩
  have moved := increment_counted S (.ofNat blockBytes)
  have inc : (UInt64.ofNat blockBytes).toNat = blockBytes := rfl
  refine ⟨fresh, bare, ?_⟩
  show (incrementCounter S (.ofNat blockBytes)).counted % 2 ^ 128 = _
  rw [moved, inc]
  omega

theorem update_absorb (S : Blake2bState) (pin : Bytes) (fresh : S.f0 = 0) (held : S.buf.length ≤ blockBytes) :
    blake2bUpdate S pin = some (.holding (absorb blockBytes absorbBlock S.bare (S.buf ++ pin))) := by
  rw [blake2bUpdate]
  by_cases nothing : pin = []
  · rw [if_pos nothing, nothing, List.append_nil, absorb_held blockBytes absorbBlock S.bare S.buf held]
    rfl
  · rw [if_neg nothing, if_neg (not_not.mpr fresh)]
    by_cases more : blockBytes < S.buf.length + pin.length
    · have whole : blockBytes < (S.buf ++ pin).length := by rwa [List.length_append]
      have fill : (S.buf ++ pin).take blockBytes = S.buf ++ pin.take (blockBytes - S.buf.length) := by
        rw [List.take_append, List.take_of_length_le held]
      have rest : (S.buf ++ pin).drop blockBytes = pin.drop (blockBytes - S.buf.length) := by
        rw [List.drop_append, List.drop_of_length_le held, List.nil_append]
      rw [if_pos more, absorb_whole blockBytes (by decide) absorbBlock S.bare _ whole, fill, rest]
      have start : ({ compress (incrementCounter S (.ofNat blockBytes)) (S.buf ++ pin.take (blockBytes - S.buf.length)) with buf := [] } :
          Blake2bState) = absorbBlock S.bare (S.buf ++ pin.take (blockBytes - S.buf.length)) := rfl
      simp only [start, update_loop_absorb]
      have first : Fed (absorbBlock S.bare (S.buf ++ pin.take (blockBytes - S.buf.length))) _ := ⟨fresh, rfl, rfl⟩
      obtain ⟨_, _, _, bare, _⟩ := absorb_fed _ (pin.drop (blockBytes - S.buf.length)) _ first
      rw [bare, List.nil_append]
      rfl
    · have few : (S.buf ++ pin).length ≤ blockBytes := by
        rw [List.length_append]
        omega
      rw [if_neg more, absorb_held blockBytes absorbBlock S.bare _ few]
      rfl

theorem update_one (S : Blake2bState) (pin : Bytes) (fresh : S.f0 = 0) (held : S.buf.length ≤ blockBytes) :
    ∃ after, blake2bUpdate S pin = some after ∧ after.f0 = 0 ∧ after.buf.length ≤ blockBytes ∧ (S.buf ++ pin ≠ [] → after.buf ≠ []) ∧
      (after.counted + after.buf.length) % 2 ^ 128 = (S.counted + S.buf.length + pin.length) % 2 ^ 128 ∧
      ∀ more, blake2bUpdate after more = blake2bUpdate S (pin ++ more) := by
  have begun : Fed S.bare S.counted := ⟨fresh, rfl, rfl⟩
  obtain ⟨taken, all, still, bare, counted⟩ := absorb_fed S.bare (S.buf ++ pin) S.counted begun
  have few := absorb_held_length blockBytes (by decide) absorbBlock S.bare (S.buf ++ pin)
  have some_ := absorb_held_some blockBytes (by decide) absorbBlock S.bare (S.buf ++ pin)
  refine ⟨_, update_absorb S pin fresh held, still, few, some_, ?_, fun more => ?_⟩
  · rw [List.length_append] at all
    show ((absorb blockBytes absorbBlock S.bare (S.buf ++ pin)).1.counted + (absorb blockBytes absorbBlock S.bare (S.buf ++ pin)).2.length) %
      2 ^ 128 = _
    omega
  · have again : (Blake2bState.holding (absorb blockBytes absorbBlock S.bare (S.buf ++ pin))).bare =
        (absorb blockBytes absorbBlock S.bare (S.buf ++ pin)).1 := by
      show { (absorb blockBytes absorbBlock S.bare (S.buf ++ pin)).1 with buf := [] } = _
      rw [← bare]
    rw [update_absorb (.holding (absorb blockBytes absorbBlock S.bare (S.buf ++ pin))) more still few,
      update_absorb S (pin ++ more) fresh held, again, ← List.append_assoc,
      absorb_append blockBytes (by decide) absorbBlock S.bare (S.buf ++ pin) more]
    rfl

theorem update_chunks (S : Blake2bState) (chunks : List Bytes) (fresh : S.f0 = 0) (held : S.buf.length ≤ blockBytes) :
    ∃ after, chunks.foldlM blake2bUpdate S = some after ∧ blake2bUpdate S chunks.flatten = some after ∧ after.f0 = 0 ∧
      after.buf.length ≤ blockBytes ∧ (S.buf ++ chunks.flatten ≠ [] → after.buf ≠ []) ∧
      (after.counted + after.buf.length) % 2 ^ 128 = (S.counted + S.buf.length + chunks.flatten.length) % 2 ^ 128 := by
  induction chunks generalizing S with
  | nil => exact ⟨S, rfl, rfl, fresh, held, fun some_ => by rwa [List.flatten_nil, List.append_nil] at some_, rfl⟩
  | cons chunk chunks ih =>
      obtain ⟨middle, here, still, few, some_, counted, joined⟩ := update_one S chunk fresh held
      obtain ⟨after, later, whole, final, fewAfter, someAfter, countedAfter⟩ := ih middle still few
      refine ⟨after, ?_, ?_, final, fewAfter, fun nonempty => someAfter fun nothing => ?_, ?_⟩
      · rw [List.foldlM_cons, here]
        exact later
      · rw [List.flatten_cons, ← joined, whole]
      · obtain ⟨emptied, rest⟩ := List.append_eq_nil_iff.mp nothing
        rw [List.flatten_cons, rest, List.append_nil] at nonempty
        exact some_ nonempty emptied
      · rw [List.flatten_cons, List.length_append]
        omega

theorem update_chunks_sample :
    ∃ after, [bytesOf "ab", [], bytesOf "c"].foldlM blake2bUpdate (blake2bInitParam 64 0) = some after ∧ after.buf ≠ [] := by
  obtain ⟨after, fed, _, _, _, some_, _⟩ := update_chunks (blake2bInitParam 64 0) [bytesOf "ab", [], bytesOf "c"] rfl (by decide)
  exact ⟨after, fed, some_ (by decide)⟩

end Streaming

end Libx.Argon2

import Libx.Argon2.Hash

set_option autoImplicit false

namespace Libx.Argon2

open Absorb Decimal

section Lengths

theorem words_length (words : List UInt64) : (words.flatMap store64).length = 8 * words.length := by
  induction words with
  | nil => rfl
  | cons w words ih =>
      have eight : (store64 w).length = 8 := rfl
      rw [List.flatMap_cons, List.length_append, ih, eight, List.length_cons, Nat.mul_succ, Nat.add_comm]

theorem update_going (S : Blake2bState) (pin : Bytes) (fresh : S.f0 = 0) (held : S.buf.length ≤ blockBytes) :
    ∃ after, blake2bUpdate S pin = some after ∧ after.f0 = 0 ∧ after.buf.length ≤ blockBytes ∧ after.outlen = S.outlen := by
  obtain ⟨_, _, still, same⟩ := absorb_measure blockBytes (by decide) absorbBlock (fun now _ => now.f0 = 0 ∧ now.outlen = S.outlen)
    (fun _ _ _ _ kept => kept) S.bare (S.buf ++ pin) 0 ⟨fresh, rfl⟩
  exact ⟨_, update_absorb S pin fresh held, still, absorb_held_length blockBytes (by decide) absorbBlock _ _, same⟩

theorem pieces_going (S : Blake2bState) (pieces : List Bytes) (fresh : S.f0 = 0) (held : S.buf.length ≤ blockBytes) :
    ∃ after, pieces.foldlM blake2bUpdate S = some after ∧ after.f0 = 0 ∧ after.outlen = S.outlen := by
  induction pieces generalizing S with
  | nil => exact ⟨S, rfl, fresh, rfl⟩
  | cons piece pieces ih =>
      obtain ⟨middle, here, still, few, same⟩ := update_going S piece fresh held
      obtain ⟨after, later, final, kept⟩ := ih middle still few
      refine ⟨after, ?_, final, kept.trans same⟩
      rw [List.foldlM_cons, here]
      exact later

theorem final_length (S : Blake2bState) (fresh : S.f0 = 0) (few : S.outlen ≤ outBytes) :
    ∃ tag, blake2bFinal S S.outlen = some tag ∧ tag.length = S.outlen := by
  rw [blake2bFinal, if_neg (Nat.lt_irrefl _), if_neg (not_not.mpr fresh)]
  refine ⟨_, rfl, ?_⟩
  rw [List.length_take, words_length, Vector.length_toList]
  exact Nat.min_eq_left few

theorem digest_total (outlen : Nat) (pieces : List Bytes) (positive : outlen ≠ 0) (few : outlen ≤ outBytes) :
    ∃ tag, digest outlen pieces = some tag ∧ tag.length = outlen := by
  have started : blake2bInit outlen = some (blake2bInitParam (.ofNat outlen) 0) :=
    if_neg fun wrong => wrong.elim positive (Nat.not_lt.mpr few)
  have own : (blake2bInitParam (.ofNat outlen) 0).outlen = outlen := UInt8.toNat_ofNat_of_lt' (Nat.lt_of_le_of_lt few (by decide))
  obtain ⟨after, fed, fresh, kept⟩ := pieces_going (blake2bInitParam (.ofNat outlen) 0) pieces rfl (Nat.zero_le _)
  rw [own] at kept
  obtain ⟨tag, final, whole⟩ := final_length after fresh (kept ▸ few)
  rw [kept] at final whole
  refine ⟨tag, ?_, whole⟩
  rw [digest, started, Option.bind_eq_bind, Option.bind_some, fed, Option.bind_some, final]

theorem blake2b_digest (outlen : Nat) (pin : Bytes) (positive : outlen ≠ 0) (few : outlen ≤ outBytes) :
    blake2b outlen pin [] = digest outlen [pin] := by
  have within_ : ¬ (outlen = 0 ∨ outBytes < outlen) := fun wrong => wrong.elim positive (Nat.not_lt.mpr few)
  rw [blake2b, digest, if_neg within_]
  simp only [List.length_nil, Nat.not_lt_zero, if_false, if_true, List.foldlM_cons, List.foldlM_nil, bind_pure]

theorem long_loop_total (toproduce : Nat) (buffer : Bytes) (positive : toproduce ≠ 0) :
    ∃ rest, longLoop toproduce buffer = some rest ∧ rest.length = toproduce := by
  induction toproduce, buffer using longLoop.induct with
  | case1 toproduce buffer more ih =>
      obtain ⟨half, made, whole⟩ := digest_total outBytes [buffer] (by decide) le_rfl
      obtain ⟨rest, later, left⟩ := ih half (by unfold outBytes at *; omega)
      rw [longLoop, if_pos more, blake2b_digest _ _ (by decide) le_rfl, made, Option.bind_eq_bind, Option.bind_some, later]
      refine ⟨_, rfl, ?_⟩
      rw [List.length_append, List.length_take, whole, left]
      unfold outBytes at *
      omega
  | case2 toproduce buffer few =>
      obtain ⟨tag, made, whole⟩ := digest_total toproduce [buffer] positive (Nat.not_lt.mp few)
      rw [longLoop, if_neg few, blake2b_digest _ _ positive (Nat.not_lt.mp few)]
      exact ⟨tag, made, whole⟩

theorem blake2b_long_total (outlen : Nat) (pin : Bytes) (positive : outlen ≠ 0) (few : outlen ≤ uint32Max) :
    ∃ tag, blake2bLong outlen pin = some tag ∧ tag.length = outlen := by
  rw [blake2bLong, if_neg (Nat.not_lt.mpr few)]
  by_cases short : outlen ≤ outBytes
  · rw [if_pos short]
    exact digest_total outlen _ positive short
  · obtain ⟨half, made, whole⟩ := digest_total outBytes [store32 (.ofNat outlen), pin] (by decide) le_rfl
    obtain ⟨rest, later, left⟩ := long_loop_total (outlen - outBytes / 2) half (by unfold outBytes at *; omega)
    rw [if_neg short, made, Option.bind_eq_bind, Option.bind_some, later]
    refine ⟨_, rfl, ?_⟩
    rw [List.length_append, List.length_take, whole, left]
    unfold outBytes at *
    omega

theorem blake2b_long_length (outlen : Nat) (pin : Bytes) (positive : outlen ≠ 0) (few : outlen ≤ uint32Max) :
    ((blake2bLong outlen pin).getD []).length = outlen := by
  obtain ⟨tag, made, whole⟩ := blake2b_long_total outlen pin positive few
  rw [made]
  exact whole

end Lengths

section Tag

variable (fillBlock : Block → Block → Block → Bool → Block)

theorem instance_even (context : Context) (type : Argon2Type) (valid : context.Valid) : (instanceOf context type).Even := by
  have share := valid.share
  have few := valid.lanes.2
  have memoryFits := context.mCost.toNat_lt
  have eight := product_eight context.lanes few
  have enough : ¬ context.mCost < 2 * syncPoints * context.lanes := (below_iff _ _).mpr (by rw [← eight] at share; exact share)
  have four : (context.lanes * syncPoints).toNat = 4 * context.lanes.toNat := by
    rw [mul_small _ _ (by show _ * 4 < _; omega), Nat.mul_comm]
    rfl
  have segment : (instanceOf context type).segmentLength.toNat = context.mCost.toNat / (4 * context.lanes.toNat) := by
    rw [instanceOf, if_neg enough]
    show (context.mCost / (context.lanes * syncPoints)).toNat = _
    rw [UInt32.toNat_div, four]
  have whole : context.lanes.toNat * (4 * (instanceOf context type).segmentLength.toNat) ≤ context.mCost.toNat := by
    rw [segment, ← Nat.mul_assoc, Nat.mul_comm context.lanes.toNat 4]
    exact Nat.mul_div_le _ _
  have least : 4 * (instanceOf context type).segmentLength.toNat ≤ context.mCost.toNat :=
    Nat.le_trans (Nat.le_mul_of_pos_left _ valid.lanes.1) whole
  have lane : (instanceOf context type).laneLength.toNat = 4 * (instanceOf context type).segmentLength.toNat := by
    show ((instanceOf context type).segmentLength * syncPoints).toNat = _
    rw [mul_small _ _ (by show _ * 4 < _; omega), Nat.mul_comm]
    rfl
  refine ⟨?_, lane, valid.lanes.1, ?_⟩
  · rw [segment, Nat.le_div_iff_mul_le (by have := valid.lanes.1; omega)]
    omega
  · rw [lane]
    exact Nat.lt_of_le_of_lt whole memoryFits

theorem first_blocks_agree (blockhash : Bytes) (inst : Instance) (even : inst.Even) (memory memory' : Memory) :
    Agree inst (fun _ => 2) (fillFirstBlocks blockhash inst memory) (fillFirstBlocks blockhash inst memory') := by
  have positive := lane_positive inst even
  have some_ := even.lane
  have two := even.segment
  intro a known (inside : a % inst.laneLength.toNat < 2)
  rw [fillFirstBlocks, fillFirstBlocks]
  generalize inst.lanes.toNat = lanes at known
  induction lanes with
  | zero => exact absurd known (Nat.not_lt_zero _)
  | succ l ih =>
      rw [List.range_succ, List.foldl_append, List.foldl_append, List.foldl_cons, List.foldl_nil, List.foldl_cons, List.foldl_nil]
      by_cases second : a = l * inst.laneLength.toNat + 1
      · rw [second, Function.update_self, Function.update_self]
      · rw [Function.update_of_ne second, Function.update_of_ne second]
        by_cases first : a = l * inst.laneLength.toNat
        · rw [first, Function.update_self, Function.update_self]
        · rw [Function.update_of_ne first, Function.update_of_ne first]
          refine ih (Nat.lt_of_le_of_ne (Nat.le_of_lt_succ known) fun here => ?_)
          have split := Nat.div_add_mod a inst.laneLength.toNat
          rw [show a / inst.laneLength.toNat = l from here, Nat.mul_comm] at split
          omega

theorem finalize_agrees (context : Context) (inst : Instance) (even : inst.Even) (memory memory' : Memory)
    (agree : Agree inst (fun _ => inst.laneLength.toNat) memory memory') : finalize context inst memory = finalize context inst memory' := by
  have positive := lane_positive inst even
  have last (l : Nat) (known : l < inst.lanes.toNat) : lastBlock inst memory l = lastBlock inst memory' l := by
    have inside : inst.laneLength.toNat - 1 < inst.laneLength.toNat := by omega
    obtain ⟨own, rest⟩ := lane_place inst even l _ inside
    exact agree _ (by rw [own]; exact known) (by rw [rest]; exact inside)
  have lanes := even.lanes
  rw [finalize, finalize, last 0 lanes, List.foldl_ext]
  intro blockhash l member
  rw [last (l + 1) (by have := List.mem_range.mp member; omega)]

def Context.tag (context : Context) (type : Argon2Type) : Bytes :=
  let inst := instanceOf context type
  let memory := fillFirstBlocks (initialHash context type) inst fun _ => initBlockValue
  (finalize context inst (fillMemoryBlocksSt fillBlock inst memory)).out.data.getD []

variable (overwrites : Overwrites fillBlock) (around : Surroundings) (context : Context) (type : Argon2Type) (valid : context.Valid)

theorem filled_as_one (inst : Instance) (even : inst.Even) (schedule : Nat × Nat → List (Fin inst.lanes.toNat)) (memory filled : Memory)
    (run : fillMemoryBlocks fillBlock inst schedule memory = some filled) : filled = fillMemoryBlocksSt fillBlock inst memory := by
  rw [fillMemoryBlocks] at run
  by_cases one : inst.threads = 1
  · rw [if_pos one] at run
    exact (Option.some.inj run).symm
  · rw [if_neg one] at run
    exact threads_as_one fillBlock inst even schedule memory filled run

include valid

theorem tag_length : (context.tag fillBlock type).length = context.out.len.toNat := by
  have four := valid.outlen
  have fits := context.out.len.toNat_lt
  exact blake2b_long_length _ _ (by omega) (by unfold uint32Max; omega)

theorem ctx_returns (enough : ∀ at_ lane, (instanceOf context type).segmentLength.toNat <
      (around.schedule (instanceOf context type) at_).count lane) : ∃ result, argon2Ctx fillBlock around context type = some result := by
  have even := instance_even context type valid
  rw [argon2Ctx, (validate_inputs_ok context).mpr valid]
  simp only [fillMemoryBlocks]
  by_cases one : (instanceOf context type).threads = 1
  · rw [if_pos one]
    exact ⟨_, rfl⟩
  · obtain ⟨filled, finished⟩ := threads_finish fillBlock (instanceOf context type) even (around.schedule (instanceOf context type))
      (fillFirstBlocks (initialHash context type) (instanceOf context type) around.memory) fun at_ _ => enough at_
    rw [if_neg one, finished]
    exact ⟨_, rfl⟩

include overwrites

theorem ctx_tag (result : Except ErrorCode Context) (run : argon2Ctx fillBlock around context type = some result) :
    result = .ok { context.wiped with out := ⟨some (context.tag fillBlock type), context.out.len⟩ } := by
  have even := instance_even context type valid
  rw [argon2Ctx, (validate_inputs_ok context).mpr valid] at run
  obtain ⟨filled, filling, rfl⟩ := Option.map_eq_some_iff.mp run
  obtain rfl := filled_as_one fillBlock _ even _ _ filled filling
  have same := finalize_agrees context.wiped _ even _ _ (filled_agrees fillBlock _ even overwrites valid.time _ _
    (first_blocks_agree (initialHash context type) _ even around.memory fun _ => initBlockValue))
  rw [same]
  rfl

end Tag

section Verify

theorem compare_from (pairs : List (UInt8 × UInt8)) (d : UInt8) :
    pairs.foldl (fun d pair => d ||| (pair.1 ^^^ pair.2)) d = 0 ↔ d = 0 ∧ ∀ pair ∈ pairs, pair.1 = pair.2 := by
  induction pairs generalizing d with
  | nil => exact ⟨fun zero => ⟨zero, fun _ absent => absurd absent List.not_mem_nil⟩, And.left⟩
  | cons pair pairs ih =>
      rw [List.foldl_cons, ih, List.forall_mem_cons, UInt8.or_eq_zero_iff, UInt8.xor_eq_zero_iff, and_assoc]

theorem compare_zero (b1 b2 : Bytes) (same : b1.length = b2.length) : argon2Compare b1 b2 = 0 ↔ b1 = b2 := by
  have result : ∀ d : BitVec 8, (1 &&& ((d.setWidth 32 - 1).sshiftRight 8)) - 1 = 0 ↔ d = 0 := by decide
  have zero (d : UInt8) : d.toBitVec = 0 ↔ d = 0 := UInt8.toBitVec_inj (b := 0)
  rw [argon2Compare, result, zero, compare_from]
  constructor
  · rintro ⟨_, pairs⟩
    rw [← List.forall₂_eq_eq_eq, List.forall₂_iff_zip]
    exact ⟨same, fun {a b} member => pairs (a, b) member⟩
  · rintro rfl
    have alike := List.forall₂_iff_zip.mp (show List.Forall₂ Eq b1 b1 from List.forall₂_refl b1)
    exact ⟨rfl, fun pair member => alike.2 member⟩

variable (fillBlock : Block → Block → Block → Bool → Block)

theorem ctx_one_tag (overwrites : Overwrites fillBlock) (context : Context) (type : Argon2Type) (valid : context.Valid) :
    ∃ tag, tag.length = context.out.len.toNat ∧ ∀ threads : UInt32, 1 ≤ threads.toNat → threads.toNat ≤ 0xFFFFFF → ∀ around,
      let given : Context := { context with threads := threads }
      let after : Context := { given.wiped with out := ⟨some tag, context.out.len⟩ }
      (∀ result, argon2Ctx fillBlock around given type = some result → result = .ok after) ∧
        ((∀ at_ lane, (instanceOf given type).segmentLength.toNat < (around.schedule (instanceOf given type) at_).count lane) →
          argon2Ctx fillBlock around given type = some (.ok after)) := by
  refine ⟨context.tag fillBlock type, tag_length fillBlock context type valid, fun threads fewest most around => ?_⟩
  intro given after
  have known : given.Valid := { valid with threads := ⟨fewest, most⟩ }
  have every (result) (run : argon2Ctx fillBlock around given type = some result) : result = .ok after :=
    ctx_tag fillBlock overwrites around given type known result run
  refine ⟨every, fun enough => ?_⟩
  obtain ⟨result, run⟩ := ctx_returns fillBlock around given type known enough
  rw [run, every result run]

theorem unwiped (context : Context) (flags : context.flags = defaultFlags) : context.wiped = context := by
  rw [Context.wiped, if_neg, if_neg]
  · rw [flags]
    exact fun clear => clear.2 rfl
  · rw [flags]
    exact fun clear => clear.2 rfl

def Context.tagged (context : Context) (type : Argon2Type) : Context :=
  { context with out := ⟨some (context.tag fillBlock type), context.out.len⟩ }

theorem tagged_bytes (context : Context) (type : Argon2Type) (valid : context.Valid) :
    (context.tagged fillBlock type).out.bytes = context.tag fillBlock type :=
  List.take_of_length_le (Nat.le_of_eq (tag_length fillBlock context type valid))

def Surroundings.Enough (around : Surroundings) (inst : Instance) : Prop :=
  ∀ at_ lane, inst.segmentLength.toNat < (around.schedule inst at_).count lane

-- A run with one result, which it comes to where the threads have turns enough.
structure Answers {α : Type} (enough : Prop) (run : Option α) (answer : α) : Prop where
  only : ∀ result, run = some result → result = answer
  comes : enough → run = some answer

theorem Answers.map {α β : Type} {enough : Prop} {run : Option α} {answer : α} (f : α → β) (answers : Answers enough run answer) :
    Answers enough (run.map f) (f answer) := by
  refine ⟨fun result ran => ?_, fun turns => by rw [answers.comes turns, Option.map_some]⟩
  obtain ⟨before, here, rfl⟩ := Option.map_eq_some_iff.mp ran
  rw [answers.only before here]

theorem ctx_answers (overwrites : Overwrites fillBlock) (around : Surroundings) (context : Context) (type : Argon2Type)
    (valid : context.Valid) (flags : context.flags = defaultFlags) :
    Answers (around.Enough (instanceOf context type)) (argon2Ctx fillBlock around context type) (.ok (context.tagged fillBlock type)) := by
  have only (result) (run : argon2Ctx fillBlock around context type = some result) : result = .ok (context.tagged fillBlock type) := by
    have made := ctx_tag fillBlock overwrites around context type valid result run
    rw [unwiped context flags] at made
    exact made
  refine ⟨only, fun enough => ?_⟩
  obtain ⟨result, run⟩ := ctx_returns fillBlock around context type valid enough
  rw [run, only result run]

section Hash

variable (overwrites : Overwrites fillBlock) (around : Surroundings) (tCost mCost parallelism : UInt32) (pwd : Option Bytes) (pwdlen : Nat)
  (salt : Option Bytes) (saltlen hashlen encodedlen : Nat) (type : Argon2Type) (version : UInt32)

structure Lengths (pwdlen saltlen hashlen : Nat) : Prop where
  pwd : pwdlen ≤ maxPwdLength.toNat
  salt : saltlen ≤ maxSaltLength.toNat
  hash : hashlen ≤ maxOutlen.toNat
  least : minOutlen.toNat ≤ hashlen

theorem passed {α : Type} (bad : Prop) [Decidable bad] (code : ErrorCode) (rest : Option (Except ErrorCode α)) (made : α)
    (run : (if bad then some (.error code) else rest) = some (.ok made)) : ¬ bad ∧ rest = some (.ok made) := by
  by_cases refused : bad
  · rw [if_pos refused] at run
    exact absurd run (by simp)
  · rw [if_neg refused] at run
    exact ⟨refused, run⟩

theorem hash_bounds (made : Bytes × Option Bytes)
    (run : argon2Hash fillBlock around tCost mCost parallelism pwd pwdlen salt saltlen hashlen encodedlen type version = some (.ok made)) :
    Lengths pwdlen saltlen hashlen ∧ (hashContext tCost mCost parallelism pwd pwdlen salt saltlen hashlen version).Valid := by
  obtain ⟨pwdFits, run⟩ := passed _ _ _ _ run
  obtain ⟨saltFits, run⟩ := passed _ _ _ _ run
  obtain ⟨hashFits, run⟩ := passed _ _ _ _ run
  obtain ⟨enough, run⟩ := passed _ _ _ _ run
  refine ⟨⟨Nat.not_lt.mp pwdFits, Nat.not_lt.mp saltFits, Nat.not_lt.mp hashFits, Nat.not_lt.mp enough⟩, ?_⟩
  cases checked : validateInputs (hashContext tCost mCost parallelism pwd pwdlen salt saltlen hashlen version) with
  | error code =>
      simp only [argon2Ctx, checked] at run
      exact absurd run (by simp)
  | ok done => exact (validate_inputs_ok _).mp checked

include overwrites

theorem hash_answers (context : Context)
    (given : hashContext tCost mCost parallelism pwd pwdlen salt saltlen hashlen version = context)
    (lengths : Lengths pwdlen saltlen hashlen) (valid : context.Valid) :
    Answers (around.Enough (instanceOf context type))
      (argon2Hash fillBlock around tCost mCost parallelism pwd pwdlen salt saltlen hashlen encodedlen type version)
      (if encodedlen = 0 then .ok (context.tag fillBlock type, none) else
        match encodeString encodedlen (context.tagged fillBlock type) type with
          | .error _ => .error .encodingFail
          | .ok encoded => .ok (context.tag fillBlock type, some encoded)) := by
  rw [argon2Hash, if_neg (Nat.not_lt.mpr lengths.pwd), if_neg (Nat.not_lt.mpr lengths.salt), if_neg (Nat.not_lt.mpr lengths.hash),
    if_neg (Nat.not_lt.mpr lengths.least), given, ← tagged_bytes fillBlock context type valid]
  have flags : context.flags = defaultFlags := by rw [← given, hashContext]
  exact (ctx_answers fillBlock overwrites around context type valid flags).map _

end Hash

def sampleSurroundings : Surroundings := ⟨fun _ _ => [], fun _ => initBlockValue⟩

theorem ctx_one_tag_sample :
    ∃ tag : Bytes, tag.length = 4 ∧ argon2Ctx fillBlockRef sampleSurroundings sampleContext .id =
      some (.ok { sampleContext.wiped with out := ⟨some tag, 4⟩ }) := by
  obtain ⟨tag, four, same⟩ := ctx_one_tag fillBlockRef ref_overwrites sampleContext .id sample_valid
  obtain ⟨result, run⟩ : ∃ result, argon2Ctx fillBlockRef sampleSurroundings sampleContext .id = some result := ⟨_, rfl⟩
  exact ⟨tag, four, by rw [run, (same 1 (by decide) (by decide) sampleSurroundings).1 result run]; rfl⟩

section Again

theorem b64len_at_least (len : Nat) : len ≤ b64len len := by
  rcases (show len % 3 = 0 ∨ len % 3 = 1 ∨ len % 3 = 2 by omega) with rest | rest | rest
  all_goals
    simp only [b64len, rest]
    omega

theorem tag_same (context context' : Context) (type : Argon2Type) (inst : instanceOf context type = instanceOf context' type)
    (pieces : prehashPieces context type = prehashPieces context' type) (outLen : context.out.len = context'.out.len) :
    context.tag fillBlock type = context'.tag fillBlock type := by
  have hash : initialHash context type = initialHash context' type := by rw [initialHash, initialHash, pieces]
  rw [Context.tag, Context.tag, inst, hash, finalize, finalize, outLen]

def Context.rehash (context : Context) (pwd : Buffer) : Context :=
  { context with
    pwd := pwd, secret := .null, ad := .null, threads := context.lanes, allocateCbk := false, freeCbk := false, flags := defaultFlags }

theorem rehash_valid (context : Context) (valid : context.Valid) (pwd : Buffer) (password : pwd.data = none → pwd.len = 0) :
    (context.rehash pwd).Valid :=
  { valid with
    pwd := password
    secret := fun _ => rfl
    ad := fun _ => rfl
    threads := valid.lanes
    callbacks := rfl }

variable (overwrites : Overwrites fillBlock) (around : Surroundings) (context : Context) (type : Argon2Type) (valid : context.Valid)
  (saltSound : context.salt.Sound) (outSound : context.out.Sound)

include overwrites valid saltSound outSound

theorem read_back_verified (reader : Context) (saltFilled : reader.salt.data ≠ none) (outFilled : reader.out.data ≠ none)
    (saltFits : context.salt.len ≤ reader.salt.len) (outFits : context.out.len ≤ reader.out.len)
    (password : reader.pwd.data = none → reader.pwd.len = 0) :
    Answers (around.Enough (instanceOf (context.rehash reader.pwd) type))
      (argon2VerifyCtx fillBlock around (context.readBack reader).newBuffer (context.readBack reader).out.bytes type)
      (if (context.rehash reader.pwd).tag fillBlock type = context.out.bytes then .ok () else .error .verifyMismatch) := by
  obtain ⟨saltBytes, outBytes_, saltLen, outLen⟩ :=
    read_back_buffers context reader valid saltSound outSound saltFilled outFilled saltFits outFits
  have known := read_back_valid context reader valid saltSound outSound saltFilled outFilled saltFits outFits password
  have ready : (context.readBack reader).newBuffer.Valid := { known with out := Option.some_ne_none _ }
  have whole := tagged_bytes fillBlock _ type ready
  have salt : (context.readBack reader).salt.pieces = context.salt.pieces := by
    rw [Buffer.pieces, Buffer.pieces, if_neg known.salt, if_neg valid.salt, saltBytes]
  have pieces : prehashPieces (context.readBack reader).newBuffer type = prehashPieces (context.rehash reader.pwd) type := by
    show prehashPieces (context.readBack reader) type = _
    simp only [prehashPieces, salt, saltLen, outLen]
    rfl
  have same := tag_same fillBlock (context.readBack reader).newBuffer (context.rehash reader.pwd) type rfl pieces outLen
  have length : context.out.bytes.length = ((context.readBack reader).newBuffer.tag fillBlock type).length := by
    rw [tag_length fillBlock _ type ready, bytes_length context.out outSound valid.out]
    exact congrArg UInt32.toNat outLen.symm
  have compared : (if argon2Compare (context.readBack reader).out.bytes ((context.readBack reader).newBuffer.tagged fillBlock type).out.bytes ≠ 0
      then throw .verifyMismatch else pure () : Except ErrorCode Unit) =
        if (context.rehash reader.pwd).tag fillBlock type = context.out.bytes then .ok () else .error .verifyMismatch := by
    rw [whole, outBytes_, ← same]
    by_cases alike : (context.readBack reader).newBuffer.tag fillBlock type = context.out.bytes
    · rw [if_pos alike, if_neg (not_not.mpr ((compare_zero _ _ length).mpr alike.symm))]
      rfl
    · rw [if_neg alike, if_pos (mt (compare_zero _ _ length).mp (Ne.symm alike))]
      rfl
  rw [← compared]
  exact (ctx_answers fillBlock overwrites around _ type ready rfl).map _

theorem verify_text (pwd : Option Bytes) (pwdlen : Nat) (pwdFits : pwdlen ≤ maxPwdLength.toNat)
    (password : pwd = none → pwdlen = 0) (room : (context.text type).length ≤ uint32Max) :
    Answers (around.Enough (instanceOf (context.rehash ⟨pwd, .ofNat pwdlen⟩) type))
      (argon2Verify fillBlock around (context.text type) pwd pwdlen type)
      (if (context.rehash ⟨pwd, .ofNat pwdlen⟩).tag fillBlock type = context.out.bytes then .ok () else .error .verifyMismatch) := by
  have fields : context.salt.len.toNat ≤ (context.text type).length ∧ context.out.len.toNat ≤ (context.text type).length := by
    have saltPart := b64len_at_least context.salt.bytes.length
    have outPart := b64len_at_least context.out.bytes.length
    rw [← bytes_length context.salt saltSound valid.salt, ← bytes_length context.out outSound valid.out]
    simp only [Context.text, layout, settings, List.length_append, encode_length]
    omega
  have text : (UInt32.ofNat (context.text type).length).toNat = (context.text type).length :=
    UInt32.toNat_ofNat_of_lt' (Nat.lt_succ_of_le room)
  have saltFits : context.salt.len ≤ .ofNat (context.text type).length := by
    rw [UInt32.le_iff_toNat_le, text]
    exact fields.1
  have outFits : context.out.len ≤ .ofNat (context.text type).length := by
    rw [UInt32.le_iff_toNat_le, text]
    exact fields.2
  have absent : pwd = none → UInt32.ofNat pwdlen = 0 := fun null => congrArg UInt32.ofNat (password null)
  have filled (data : Bytes) : some data ≠ none := Option.some_ne_none data
  rw [argon2Verify, if_neg (Nat.not_lt.mpr pwdFits), if_neg (Nat.not_lt.mpr room),
    text_decodes context (verifyContext (context.text type).length pwd pwdlen) type valid saltSound outSound (filled _) (filled _) saltFits
      outFits absent]
  exact read_back_verified fillBlock overwrites around context type valid saltSound outSound
    (verifyContext (context.text type).length pwd pwdlen) (filled _) (filled _) saltFits outFits absent

end Again

section Passwords

variable (overwrites : Overwrites fillBlock) (around : Surroundings) (tCost mCost parallelism : UInt32) (pwd : Option Bytes) (pwdlen : Nat)
  (salt : Option Bytes) (saltlen hashlen encodedlen : Nat) (type : Argon2Type) (version : UInt32)

theorem tagged_valid (context : Context) (valid : context.Valid) : (context.tagged fillBlock type).Valid :=
  { valid with out := Option.some_ne_none _ }

theorem tagged_sound (context : Context) (valid : context.Valid) : (context.tagged fillBlock type).out.Sound :=
  sound_of_length _ _ (Nat.le_of_eq (tag_length fillBlock context type valid).symm)

include overwrites

theorem hash_encoded (context : Context)
    (given : hashContext tCost mCost parallelism pwd pwdlen salt saltlen hashlen version = context) (raw encoded : Bytes)
    (hashed : argon2Hash fillBlock around tCost mCost parallelism pwd pwdlen salt saltlen hashlen encodedlen type version =
      some (.ok (raw, some encoded))) :
    Lengths pwdlen saltlen hashlen ∧ context.Valid ∧ raw = context.tag fillBlock type ∧
      encoded = (context.tagged fillBlock type).text type := by
  obtain ⟨lengths, valid⟩ := hash_bounds fillBlock around _ _ _ _ _ _ _ _ _ _ _ _ hashed
  rw [given] at valid
  have made := (hash_answers fillBlock overwrites around _ _ _ _ _ _ _ _ _ _ _ context given lengths valid).only _ hashed
  refine ⟨lengths, valid, ?_⟩
  by_cases none_ : encodedlen = 0
  · rw [if_pos none_] at made
    exact absurd made (by simp)
  · rw [if_neg none_] at made
    cases written : encodeString encodedlen (context.tagged fillBlock type) type with
    | error code =>
        rw [written] at made
        exact absurd made (by simp)
    | ok text =>
        rw [written] at made
        obtain ⟨rfl, same⟩ := Prod.mk.inj (Except.ok.inj made)
        obtain rfl := Option.some.inj same
        exact ⟨rfl, ((encode_string_iff _ _ _ _).mp written).2.1⟩

theorem verify_hash (raw encoded : Bytes) (saltSound : ∀ data, salt = some data → saltlen ≤ data.length)
    (hashed : argon2Hash fillBlock around tCost mCost parallelism pwd pwdlen salt saltlen hashlen encodedlen type version =
      some (.ok (raw, some encoded))) :
    let inst := instanceOf (hashContext tCost mCost parallelism pwd pwdlen salt saltlen hashlen version) type
    (encoded.length ≤ uint32Max →
      (∀ (pwd' : Option Bytes) (pwdlen' : Nat), pwdlen' ≤ maxPwdLength.toNat → (pwd' = none → pwdlen' = 0) → ∃ raw', ∀ around',
        Answers (around'.Enough inst)
          (argon2Hash fillBlock around' tCost mCost parallelism pwd' pwdlen' salt saltlen hashlen 0 type version) (.ok (raw', none)) ∧
        Answers (around'.Enough inst) (argon2Verify fillBlock around' encoded pwd' pwdlen' type)
          (if raw' = raw then .ok () else .error .verifyMismatch)) ∧
      (∀ around', Answers (around'.Enough inst) (argon2Verify fillBlock around' encoded pwd pwdlen type) (.ok ())) ∧
      ∀ other, other ≠ type → ∀ (pwd' : Option Bytes) (pwdlen' : Nat), pwdlen' ≤ maxPwdLength.toNat → ∀ around',
        argon2Verify fillBlock around' encoded pwd' pwdlen' other = some (.error .decodingFail)) ∧
    (uint32Max < encoded.length → ∀ any (pwd' : Option Bytes) (pwdlen' : Nat), pwdlen' ≤ maxPwdLength.toNat → ∀ around',
      argon2Verify fillBlock around' encoded pwd' pwdlen' any = some (.error .decodingFail)) := by
  intro inst
  obtain ⟨context, given⟩ : ∃ context, hashContext tCost mCost parallelism pwd pwdlen salt saltlen hashlen version = context := ⟨_, rfl⟩
  obtain ⟨lengths, valid, rfl, rfl⟩ := hash_encoded fillBlock overwrites around _ _ _ _ _ _ _ _ _ _ _ context given raw encoded hashed
  have known := tagged_valid fillBlock type context valid
  have sound := tagged_sound fillBlock type context valid
  have fitting (len : Nat) (fits : len ≤ uint32Max) : (UInt32.ofNat len).toNat = len := UInt32.toNat_ofNat_of_lt' (Nat.lt_succ_of_le fits)
  have salted : (context.tagged fillBlock type).salt.Sound := by
    rw [← given]
    intro data present
    exact Nat.le_trans (Nat.le_of_eq (fitting saltlen lengths.salt)) (saltSound data present)
  have again (pwd' : Option Bytes) (pwdlen' : Nat) : hashContext tCost mCost parallelism pwd' pwdlen' salt saltlen hashlen version =
      context.rehash ⟨pwd', .ofNat pwdlen'⟩ := by
    rw [← given]
    rfl
  -- the password is no part of the instance
  have settled (pwd' : Option Bytes) (pwdlen' : Nat) : instanceOf (context.rehash ⟨pwd', .ofNat pwdlen'⟩) type = inst := by
    rw [← again]
    rfl
  refine ⟨fun room => ?_, fun long any pwd' pwdlen' fits around' => ?_⟩
  · have verified (pwd' : Option Bytes) (pwdlen' : Nat) (fits : pwdlen' ≤ maxPwdLength.toNat) (password : pwd' = none → pwdlen' = 0)
        (around') : Answers (around'.Enough inst) (argon2Verify fillBlock around' ((context.tagged fillBlock type).text type) pwd' pwdlen' type)
          (if (context.rehash ⟨pwd', .ofNat pwdlen'⟩).tag fillBlock type = context.tag fillBlock type then .ok () else
            .error .verifyMismatch) := by
      have made := verify_text fillBlock overwrites around' (context.tagged fillBlock type) type known salted sound pwd' pwdlen' fits password
        room
      rw [tagged_bytes fillBlock context type valid] at made
      rw [← settled pwd' pwdlen']
      exact made
    refine ⟨fun pwd' pwdlen' fits password => ⟨(context.rehash ⟨pwd', .ofNat pwdlen'⟩).tag fillBlock type, fun around' => ⟨?_,
      verified pwd' pwdlen' fits password around'⟩⟩, fun around' => ?_, fun other differs pwd' pwdlen' fits around' => ?_⟩
    · have ready := rehash_valid context valid ⟨pwd', .ofNat pwdlen'⟩ fun null => congrArg UInt32.ofNat (password null)
      rw [← settled pwd' pwdlen']
      exact hash_answers fillBlock overwrites around' _ _ _ _ _ _ _ _ _ _ _ _ (again pwd' pwdlen') { lengths with pwd := fits } ready
    · have own : context.rehash ⟨pwd, .ofNat pwdlen⟩ = context := by rw [← again, given]
      have password : pwd = none → pwdlen = 0 := by
        intro null
        have zero : UInt32.ofNat pwdlen = 0 := by
          have empty := valid.pwd
          rw [← given] at empty
          exact empty null
        rw [← fitting pwdlen lengths.pwd, zero]
        rfl
      have made := verified pwd pwdlen lengths.pwd password around'
      rw [own, if_pos rfl] at made
      exact made
    · rw [argon2Verify, if_neg (Nat.not_lt.mpr fits), if_neg (Nat.not_lt.mpr room), Context.text, other_type _ _ _ _ _ _ _ _ _ differs]
  · rw [argon2Verify, if_neg (Nat.not_lt.mpr fits), if_pos long]

end Passwords

def orderly : Surroundings :=
  ⟨fun inst _ => (List.finRange inst.lanes.toNat).flatMap (List.replicate (inst.segmentLength.toNat + 1)), fun _ => initBlockValue⟩

theorem orderly_enough (inst : Instance) : orderly.Enough inst := by
  intro _ lane
  have turns : (List.replicate (inst.segmentLength.toNat + 1) lane).count lane = inst.segmentLength.toNat + 1 := List.count_replicate_self
  have among : (List.replicate (inst.segmentLength.toNat + 1) lane).Sublist
      ((List.finRange inst.lanes.toNat).flatMap (List.replicate (inst.segmentLength.toNat + 1))) := by
    rw [List.flatMap_def]
    exact List.sublist_flatten_of_mem (List.mem_map_of_mem (List.mem_finRange lane))
  have least := among.count_le lane
  rw [turns] at least
  exact least

theorem verify_hash_sample :
    ∃ raw encoded, argon2Hash fillBlockRef orderly 3 64 2 (some (bytesOf "password")) 8 (some (bytesOf "somesalt")) 8 4 100 .id
        versionNumber = some (.ok (raw, some encoded)) ∧
      argon2Verify fillBlockRef orderly encoded (some (bytesOf "password")) 8 .id = some (.ok ()) ∧
      argon2Verify fillBlockRef orderly encoded (some (bytesOf "password")) 8 .i = some (.error .decodingFail) ∧
      ∃ raw', argon2Hash fillBlockRef orderly 3 64 2 (some (bytesOf "passwort")) 8 (some (bytesOf "somesalt")) 8 4 0 .id versionNumber =
          some (.ok (raw', none)) ∧
        argon2Verify fillBlockRef orderly encoded (some (bytesOf "passwort")) 8 .id =
          some (if raw' = raw then .ok () else .error .verifyMismatch) := by
  obtain ⟨context, given⟩ : ∃ context, hashContext 3 64 2 (some (bytesOf "password")) 8 (some (bytesOf "somesalt")) 8 4 versionNumber =
    context := ⟨_, rfl⟩
  have valid : context.Valid := by
    rw [← given]
    exact (validate_inputs_ok _).mp rfl
  have run := (hash_answers fillBlockRef ref_overwrites orderly _ _ _ _ _ _ _ _ 100 .id _ context given
    ⟨by decide, by decide, by decide, by decide⟩ valid).comes (orderly_enough _)
  have short : ((context.tagged fillBlockRef .id).text .id).length < 100 := by
    have digits (num : Nat) (small : num < 100) : (decimal num).length ≤ 2 := by
      rw [← numlen_decimal, numlen]
      split_ifs with one
      · exact Nat.le_succ 1
      · rw [numlen, if_pos (by omega)]
    have tag := bytes_length _ (tagged_sound fillBlockRef .id context valid) (tagged_valid fillBlockRef .id context valid).out
    have salt : (context.tagged fillBlockRef .id).salt.bytes.length = 8 := by
      rw [← given]
      rfl
    have out : (context.tagged fillBlockRef .id).out.len.toNat = 4 := by
      rw [← given]
      rfl
    rw [Context.text, layout, settings, versionPart]
    simp only [List.length_append, encode_length, tag, salt, out]
    have version := digits (context.tagged fillBlockRef .id).version.toNat (by rw [← given]; decide)
    have memory := digits (context.tagged fillBlockRef .id).mCost.toNat (by rw [← given]; decide)
    have time := digits (context.tagged fillBlockRef .id).tCost.toNat (by rw [← given]; decide)
    have lanes := digits (context.tagged fillBlockRef .id).lanes.toNat (by rw [← given]; decide)
    have pieces : (bytesOf "$").length + ((type2string .id false).length + ((bytesOf "$v=").length + 2 + ((bytesOf "$m=").length + (2 +
        ((bytesOf ",t=").length + (2 + ((bytesOf ",p=").length + (2 + ((bytesOf "$").length + (b64len 8 + ((bytesOf "$").length +
          b64len 4))))))))))) < 100 := by decide
    omega
  rw [if_neg (by decide), (encode_string_iff 100 _ .id _).mpr ⟨tagged_valid fillBlockRef .id context valid, rfl, short⟩] at run
  obtain ⟨known, _⟩ := verify_hash fillBlockRef ref_overwrites orderly _ _ _ _ _ _ _ _ _ _ _ _ _
    (fun data present => by rw [← Option.some.inj present]; decide) run
  obtain ⟨passwords, own, others⟩ := known (Nat.le_trans (Nat.le_of_lt short) (by decide))
  obtain ⟨raw', runs⟩ := passwords (some (bytesOf "passwort")) 8 (by decide) fun absent => absurd absent (by decide)
  have turns := orderly_enough (instanceOf (hashContext 3 64 2 (some (bytesOf "password")) 8 (some (bytesOf "somesalt")) 8 4 versionNumber) .id)
  exact ⟨_, _, run, (own orderly).comes turns, others .i (by decide) _ 8 (by decide) orderly, raw', (runs orderly).1.comes turns,
    (runs orderly).2.comes turns⟩

end Verify

end Libx.Argon2

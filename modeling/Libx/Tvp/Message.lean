import Libx.Tvp.Reader

set_option autoImplicit false

namespace Libx.Tvp

-- Template v1::msg_t.
namespace V1

def clipper : IntClipper where
  acceptedTags := [8, 9, 35, 48, 22, 11, 41]
  nonempty := by simp
  ints := by decide

def readTag (text : Bytes) : Except Fault Int := (fatoi text).map int

def step (current : Nat) (rest : Bytes) : Except Fault (Except ParseError (TVPair × Nat)) := stepWith readTag 59 current rest

structure Msg where
  lookup : Lookup
  max : Nat
  used : Nat

-- The bytes of new storage are not set.
def fresh : Msg := ⟨⟨[], 0, noWheres clipper, 0⟩, 4096, 0⟩

def assert (condition : Bool) : Except Fault Unit := if condition then .ok () else .error .assertion

-- The loop of roundUpToPowerOfTwo; a shift by 64 is not defined.
def roundUpLoop : List UInt64 → UInt64 → Except Fault UInt64
  | [], powtwo => if powtwo &&& (powtwo + 1) = 0 then .ok powtwo else .error .badShift
  | i :: shifts, powtwo =>
      if powtwo &&& (powtwo + 1) = 0 then .ok powtwo else roundUpLoop shifts (powtwo ||| (powtwo <<< i))

def roundUpToPowerOfTwo (sz : UInt64) : Except Fault UInt64 := do
  let powtwo ← roundUpLoop [1, 2, 4, 8, 16, 32] sz
  let powtwo := powtwo + 1
  assert (powtwo ≥ sz)
  assert (sz ≥ powtwo / 2)
  assert (powtwo &&& (powtwo - 1) = 0)
  return powtwo

def isEmpty (msg : Msg) : Except Fault Bool := do
  let empty : Bool := msg.lookup.originalSize = 0
  if empty then
    assert (msg.lookup.lastLookupPosition = 0)
    assert (msg.used = 0)
    assert (msg.lookup.alreadySeenTagsCache = noWheres clipper)
  return empty

def getPair (tag : Nat) (msg : Msg) : Except Fault (Option StringRef × Msg) :=
  (Tvp.getPair clipper step tag msg.lookup).map fun (ref, lookup) => (ref, { msg with lookup })

-- The storage is never null; each exception is caught and makes the result false.
def checkMessageAndLogicAfterSend (avoid : Bool) (msg : Msg) : Except Fault (Bool × Msg) := do
  if avoid then return (true, msg)
  if ← isEmpty msg then
    if msg.lookup.originalSize ≠ 0 ∨ msg.lookup.lastLookupPosition ≠ 0 ∨ msg.used ≠ 0 ∨
        msg.lookup.alreadySeenTagsCache ≠ noWheres clipper then
      return (false, msg)
    let (bodyLength, msg) ← getPair 9 msg
    return (bodyLength.any (·.len ≠ 0), msg)
  return (true, msg)

def reset (avoid : Bool) (msg : Msg) : Except Fault Msg := do
  let (_, msg) ← checkMessageAndLogicAfterSend avoid msg
  let msg := { msg with
    lookup := { msg.lookup with originalSize := 0, lastLookupPosition := 0, alreadySeenTagsCache := noWheres clipper }
    used := 0 }
  assert (← isEmpty msg)
  let (_, msg) ← checkMessageAndLogicAfterSend avoid msg
  return msg

def reserve : Nat := 1024

def grow (newmax : Nat) (msg : Msg) : Except Fault Msg :=
  if newmax > msg.max then do
    let max ← roundUpToPowerOfTwo (.ofNat newmax)
    return { msg with max := max.toNat, lookup := { msg.lookup with content := [] } }
  else .ok msg

def set (avoid : Bool) (buf : Bytes) (msg : Msg) : Except Fault (Bool × Msg) := do
  let empty ← isEmpty msg
  let msg ← if empty then pure msg else reset avoid msg
  if buf.length > 100000 then return (false, msg)
  assert (msg.lookup.alreadySeenTagsCache = noWheres clipper)
  let size ← trimmedSize buf
  let msg ← grow (size + reserve) msg
  let msg := { msg with
    lookup := { msg.lookup with content := buf.take size ++ msg.lookup.content.drop size, originalSize := size } }
  if size ≠ 0 then
    assert (!(← isEmpty msg))
  return (true, msg)

inductive Call where
  | set (buf : Bytes)
  | getPair (tag : Nat)

def Call.isSet : Call → Bool
  | .set _ => true
  | .getPair _ => false

def Call.run (call : Call) (msg : Msg) : Except Fault Msg :=
  match call with
  | .set buf => (V1.set false buf msg).map Prod.snd
  | .getPair tag => (V1.getPair tag msg).map Prod.snd

def runCalls : List Call → Msg → Except Fault Msg := Fallible.run Call.run

structure MessageField (field : Field) : Prop where
  tag : field.1 ≠ [] ∧ field.1.all isDigit = true ∧ field.1.length ≤ 16
  value : field.2 ≠ [] ∧ 59 ∉ field.2

def Call.Normal : Call → Prop
  | .set buf => ∃ fields, (∀ field ∈ fields, MessageField field) ∧ buf = render 59 fields ∧ 8 ≤ buf.length ∧ buf.length ≤ 3072
  | .getPair tag => tag ∈ clipper.acceptedTags

theorem message_tag (field : Field) (good : MessageField field) :
    61 ∉ field.1 ∧ readTag field.1 = .ok (int (decimal field.1)) := by
  refine ⟨fun member => absurd (List.all_eq_true.mp good.tag.2.1 61 member) (by decide), ?_⟩
  rw [readTag, fatoi_digits field.1 good.tag.2.1 good.tag.2.2]
  rfl

theorem cut_off_step (field : Field) (good : MessageField field) (current : Nat) (part missing : Bytes) (cutOff : missing ≠ [])
    (split : renderField 59 field = part ++ missing) : ∃ fault, step current part = .ok (.error fault) := by
  obtain ⟨clean, read⟩ := message_tag field good
  rw [renderField] at split
  rcases List.append_eq_append_iff.mp split with ⟨middle, rfl, inner⟩ | ⟨middle, outer, _⟩
  · cases middle with
    | nil =>
        refine ⟨.equalMissing, ?_⟩
        rw [List.append_nil, step, stepWith, cut_none 61 field.1 clean]
    | cons c value =>
        simp only [List.cons_append, List.cons.injEq] at inner
        obtain ⟨rfl, inner⟩ := inner
        have absent : 59 ∉ value := by
          intro member
          have shortened : field.2 = value ++ missing.dropLast := by
            have dropped := congrArg List.dropLast inner
            rw [List.dropLast_concat, List.dropLast_append_of_ne_nil cutOff] at dropped
            exact dropped
          exact good.value.2 (shortened ▸ List.mem_append_left _ member)
        refine ⟨.unterminated, ?_⟩
        rw [step, stepWith, cut_here 61 field.1 value clean]
        simp only [read, cut_none 59 value absent]
        rfl
  · refine ⟨.equalMissing, ?_⟩
    rw [step, stepWith, cut_none 61 part fun member => clean (outer ▸ List.mem_append_left _ member)]

theorem prefix_cases {α : Type} (text front back : List α) (start : text <+: front ++ back) :
    (∃ missing, missing ≠ [] ∧ front = text ++ missing) ∨ ∃ more, text = front ++ more ∧ more <+: back := by
  obtain ⟨rest, same⟩ := start
  rcases List.append_eq_append_iff.mp same with ⟨missing, split, _⟩ | ⟨more, split, tail⟩
  · by_cases whole : missing = []
    · exact .inr ⟨[], by simp [split, whole], List.nil_prefix⟩
    · exact .inl ⟨missing, whole, split⟩
  · exact .inr ⟨more, split, rest, tail.symm⟩

def Safe (lookup : Lookup) : Prop := ∃ fields, (∀ field ∈ fields, MessageField field) ∧ lookup.ahead <+: render 59 fields

theorem scan_safe (fuel : Nat) (lookup : Lookup) (safe : Safe lookup) (enough : lookup.ahead.length < fuel) :
    ∃ thrown after, scan clipper step fuel lookup = .ok (thrown, after) ∧ Safe after ∧
      after.originalSize = lookup.originalSize := by
  induction fuel generalizing lookup with
  | zero => omega
  | succ fuel ih =>
      obtain ⟨fields, good, start⟩ := safe
      by_cases bound : lookup.lastLookupPosition < lookup.originalSize
      · have stops (fault : ParseError) (thrown : step lookup.lastLookupPosition lookup.ahead = .ok (.error fault)) :
            ∃ thrown after, scan clipper step (fuel + 1) lookup = .ok (thrown, after) ∧ Safe after ∧
              after.originalSize = lookup.originalSize := by
          refine ⟨true, lookup, ?_, ⟨fields, good, start⟩, rfl⟩
          rw [scan, if_pos bound, thrown]
          rfl
        cases fields with
        | nil =>
            rw [show render 59 [] = [] from rfl, List.prefix_nil] at start
            exact stops .equalMissing (by rw [start]; rfl)
        | cons field fields =>
            have fieldGood := good field (by simp)
            rw [render_cons] at start
            rcases prefix_cases _ _ _ start with ⟨missing, cutOff, split⟩ | ⟨more, split, later⟩
            · obtain ⟨fault, thrown⟩ := cut_off_step field fieldGood lookup.lastLookupPosition lookup.ahead missing cutOff split
              exact stops fault thrown
            · obtain ⟨clean, read⟩ := message_tag field fieldGood
              have taken := step_rendered readTag 59 field lookup.lastLookupPosition more _ clean read fieldGood.value.2
                fieldGood.value.1
              have remaining := (ahead_field 59 lookup field more split).2
              have size := field_length 59 field
              rw [split, List.length_append] at enough
              rw [scan, if_pos bound, split, step, taken]
              refine ih _ ⟨fields, fun other member => good other (by simp [member]), ?_⟩ ?_
              · rw [Lookup.ahead, remaining]
                exact later
              · rw [Lookup.ahead, remaining]
                omega
      · refine ⟨false, lookup, ?_, ⟨fields, good, start⟩, rfl⟩
        rw [scan, if_neg bound]
        rfl

theorem ahead_length (lookup : Lookup) : lookup.ahead.length ≤ lookup.originalSize := by
  simp only [Lookup.ahead, List.length_drop, List.length_take]
  omega

theorem get_pair_safe (lookup : Lookup) (safe : Safe lookup) (tag : Nat) (accepted : tag ∈ clipper.acceptedTags) :
    ∃ ref after, Tvp.getPair clipper step tag lookup = .ok (ref, after) ∧ Safe after ∧
      after.originalSize = lookup.originalSize := by
  obtain ⟨position, slot⟩ := Nat.exists_eq_succ_of_ne_zero (clipper.index_accepted tag accepted).1
  obtain ⟨thrown, after, run, later, same⟩ := scan_safe _ lookup safe (Nat.lt_succ_of_le (ahead_length lookup))
  rw [Tvp.getPair, slot]
  simp only [run, Fallible.ok_bind, Fallible.pure_eq_ok]
  cases thrown with
  | true => exact ⟨none, after, rfl, later, same⟩
  | false => exact ⟨_, _, rfl, later, same⟩

def Loaded (msg : Msg) : Prop := msg.lookup.originalSize ≠ 0 ∧ Safe msg.lookup

def Marked (msg : Msg) : Prop :=
  msg.lookup.originalSize = 0 ∧ msg.lookup.alreadySeenTagsCache.length = clipper.nbEntries ∧
    msg.lookup.alreadySeenTagsCache ≠ noWheres clipper

theorem assert_true : assert true = .ok () := rfl

theorem is_empty_loaded (msg : Msg) (loaded : msg.lookup.originalSize ≠ 0) : isEmpty msg = .ok false := by
  simp [isEmpty, loaded]

theorem is_empty_clear (msg : Msg) (clear : msg.lookup.originalSize = 0 ∧ msg.lookup.lastLookupPosition = 0 ∧ msg.used = 0 ∧
    msg.lookup.alreadySeenTagsCache = noWheres clipper) : isEmpty msg = .ok true := by
  simp [isEmpty, clear, assert]

theorem is_empty_marked (msg : Msg) (marked : Marked msg) : isEmpty msg = .error .assertion := by
  by_cases last : msg.lookup.lastLookupPosition = 0
  · by_cases used : msg.used = 0
    · simp [isEmpty, marked.1, marked.2.2, last, used, assert]
    · simp [isEmpty, marked.1, last, used, assert]
  · simp [isEmpty, marked.1, last, assert]

theorem get_pair_empty (msg : Msg) (empty : msg.lookup.originalSize = 0)
    (slots : msg.lookup.alreadySeenTagsCache.length = clipper.nbEntries) (tag : Nat) (accepted : tag ∈ clipper.acceptedTags) :
    ∃ ref after, getPair tag msg = .ok (ref, after) ∧ Marked after := by
  obtain ⟨present, few⟩ := clipper.index_accepted tag accepted
  obtain ⟨position, slot⟩ := Nat.exists_eq_succ_of_ne_zero present
  have inside : position < msg.lookup.alreadySeenTagsCache.length := by omega
  have run : scan clipper step (msg.lookup.originalSize + 1) msg.lookup = .ok (false, msg.lookup) := by
    rw [scan, if_neg (by omega)]
    rfl
  refine ⟨(found position msg.lookup).1, { msg with lookup := (found position msg.lookup).2 }, ?_, empty, ?_, fun zeros => ?_⟩
  · rw [getPair, Tvp.getPair, slot]
    simp only [run]
    rfl
  · simpa [found] using slots
  · have written := congrArg (fun cache => (cache.getD position ⟨0, 0⟩).offset) zeros
    have clear : (noWheres clipper).getD position ⟨0, 0⟩ = ⟨0, 0⟩ := by
      simp [noWheres, List.getD_eq_getElem?_getD, show position < clipper.nbEntries by omega]
    simp only [found, clear, List.getD_eq_getElem?_getD, List.getElem?_set_self inside, Option.getD_some] at written
    split at written
    · exact absurd written (show ¬ (1 : UInt16) = 0 by decide)
    · contradiction

theorem get_pair_kept (msg : Msg) (held : Loaded msg ∨ Marked msg) (tag : Nat) (accepted : tag ∈ clipper.acceptedTags) :
    ∃ ref after, getPair tag msg = .ok (ref, after) ∧ (Loaded after ∨ Marked after) := by
  rcases held with ⟨filled, safe⟩ | marked
  · obtain ⟨ref, lookup, run, later, same⟩ := get_pair_safe msg.lookup safe tag accepted
    refine ⟨ref, { msg with lookup }, ?_, .inl ⟨same ▸ filled, later⟩⟩
    rw [getPair, run]
    rfl
  · obtain ⟨ref, after, run, later⟩ := get_pair_empty msg marked.1 marked.2.1 tag accepted
    exact ⟨ref, after, run, .inr later⟩

theorem reset_marks (msg : Msg) (loaded : Loaded msg) : ∃ after, reset false msg = .ok after ∧ Marked after := by
  let clear : Msg := { msg with
    lookup := { msg.lookup with originalSize := 0, lastLookupPosition := 0, alreadySeenTagsCache := noWheres clipper }
    used := 0 }
  have clearEmpty : isEmpty clear = .ok true := is_empty_clear clear ⟨rfl, rfl, rfl, rfl⟩
  obtain ⟨ref, after, run, marked⟩ := get_pair_empty clear rfl (by simp [clear, noWheres]) 9 (by decide)
  have checked : checkMessageAndLogicAfterSend false clear = .ok (ref.any (·.len ≠ 0), after) := by
    rw [checkMessageAndLogicAfterSend, clearEmpty]
    simp only [Bool.false_eq_true, if_false, Fallible.ok_bind, Fallible.pure_eq_ok, if_true]
    rw [if_neg (by simp [clear]), run]
    rfl
  have first : checkMessageAndLogicAfterSend false msg = .ok (true, msg) := by
    rw [checkMessageAndLogicAfterSend, is_empty_loaded msg loaded.1]
    rfl
  refine ⟨after, ?_, marked⟩
  rw [reset, first]
  change (isEmpty clear >>= fun empty => assert empty >>= fun _ =>
    checkMessageAndLogicAfterSend false clear >>= fun checked => pure checked.2) = .ok after
  rw [clearEmpty, checked]
  rfl

theorem set_again (msg : Msg) (held : Loaded msg ∨ Marked msg) (buf : Bytes) (short : buf.length ≤ 3072) :
    set false buf msg = .error .assertion := by
  rcases held with loaded | marked
  · obtain ⟨after, resets, marked⟩ := reset_marks msg loaded
    have size : ¬ buf.length > 100000 := by omega
    simp [set, is_empty_loaded msg loaded.1, resets, size, marked.2.2, assert]
  · rw [set, is_empty_marked msg marked]
    rfl

theorem set_first (buf : Bytes) (fields : List Field) (good : ∀ field ∈ fields, MessageField field) (same : buf = render 59 fields)
    (long : 8 ≤ buf.length) (short : buf.length ≤ 3072) : ∃ after, set false buf fresh = .ok (true, after) ∧ Loaded after := by
  obtain ⟨size, trimmed, positive, within⟩ : ∃ size, trimmedSize buf = .ok size ∧ 0 < size ∧ size ≤ buf.length := by
    rw [trimmedSize, if_pos (by omega), if_neg (by omega)]
    split
    · exact ⟨_, rfl, by omega, by omega⟩
    · exact ⟨_, rfl, by omega, by omega⟩
  let after : Msg := ⟨⟨buf.take size ++ ([] : Bytes).drop size, size, noWheres clipper, 0⟩, 4096, 0⟩
  have loaded : Loaded after := by
    refine ⟨by simp only [after]; omega, fields, good, ?_⟩
    have ahead : after.lookup.ahead = buf.take size := by simp [after, Lookup.ahead, List.take_take]
    rw [ahead, ← same]
    exact List.take_prefix size buf
  refine ⟨after, ?_, loaded⟩
  have fits : ¬ size + reserve > fresh.max := by
    simp only [reserve, fresh]
    omega
  have emptyFresh := is_empty_clear fresh ⟨rfl, rfl, rfl, rfl⟩
  rw [set, emptyFresh]
  simp only [Fallible.ok_bind, Fallible.pure_eq_ok, if_true]
  rw [if_neg (by omega), show fresh.lookup.alreadySeenTagsCache = noWheres clipper from rfl]
  simp only [decide_true, assert_true, Fallible.ok_bind, trimmed, grow, if_neg fits]
  rw [if_pos (by omega)]
  have filled := is_empty_loaded after loaded.1
  simp only [after] at filled
  simp only [fresh, filled]
  rfl

theorem run_held (calls : List Call) (normal : ∀ call ∈ calls, call.Normal) (msg : Msg) (held : Loaded msg ∨ Marked msg) :
    ((∀ call ∈ calls, call.isSet = false) → ∃ after, runCalls calls msg = .ok after) ∧
      (¬ (∀ call ∈ calls, call.isSet = false) → runCalls calls msg = .error .assertion) := by
  induction calls generalizing msg with
  | nil => exact ⟨fun _ => ⟨msg, rfl⟩, fun some_ => absurd (by simp) some_⟩
  | cons call calls ih =>
      have others : ∀ other ∈ calls, other.Normal := fun other member => normal other (by simp [member])
      cases call with
      | set buf =>
          obtain ⟨_, _, _, _, short⟩ := normal (.set buf) (by simp)
          refine ⟨fun none_ => by simpa [Call.isSet] using none_ (.set buf) (by simp), fun _ => ?_⟩
          exact Fallible.run_error_cons Call.run (.set buf) calls msg .assertion (by rw [Call.run, set_again msg held buf short]; rfl)
      | getPair tag =>
          obtain ⟨ref, after, run, later⟩ := get_pair_kept msg held tag (normal (.getPair tag) (by simp))
          have goesOn : runCalls (.getPair tag :: calls) msg = runCalls calls after :=
            Fallible.run_ok_cons Call.run (.getPair tag) calls msg after (by rw [Call.run, run]; rfl)
          rw [goesOn]
          simpa [Call.isSet] using ih others after later

theorem run_normal (calls : List Call) (normal : ∀ call ∈ calls, call.Normal) :
    ((∀ call ∈ calls.tail, call.isSet = false) → ∃ after, runCalls calls fresh = .ok after) ∧
      (¬ (∀ call ∈ calls.tail, call.isSet = false) → runCalls calls fresh = .error .assertion) := by
  cases calls with
  | nil => exact ⟨fun _ => ⟨fresh, rfl⟩, fun some_ => absurd (by simp) some_⟩
  | cons call calls =>
      have others : ∀ other ∈ calls, other.Normal := fun other member => normal other (by simp [member])
      obtain ⟨after, run, held⟩ : ∃ after, call.run fresh = .ok after ∧ (Loaded after ∨ Marked after) := by
        cases call with
        | set buf =>
            obtain ⟨fields, good, same, long, short⟩ := normal (.set buf) (by simp)
            obtain ⟨after, run, loaded⟩ := set_first buf fields good same long short
            exact ⟨after, by rw [Call.run, run]; rfl, .inl loaded⟩
        | getPair tag =>
            obtain ⟨ref, after, run, marked⟩ := get_pair_empty fresh rfl (by simp [fresh, noWheres]) tag
              (normal (.getPair tag) (by simp))
            exact ⟨after, by rw [Call.run, run]; rfl, .inr marked⟩
      have goesOn : runCalls (call :: calls) fresh = runCalls calls after :=
        Fallible.run_ok_cons Call.run call calls fresh after run
      rw [goesOn, List.tail_cons]
      exact run_held calls others after held

theorem message_reused_iff (calls : List Call) (normal : ∀ call ∈ calls, call.Normal) :
    runCalls calls fresh ≠ .error .assertion ↔ ∀ call ∈ calls.tail, call.isSet = false := by
  obtain ⟨completes, fails⟩ := run_normal calls normal
  constructor
  · intro holds
    by_contra again
    exact holds (fails again)
  · intro once failed
    obtain ⟨after, run⟩ := completes once
    simp [run] at failed

theorem message_normal : (Call.set [56, 61, 97, 59, 57, 61, 98, 59]).Normal := by
  refine ⟨[([56], [97]), ([57], [98])], fun field member => ?_, by decide, by decide, by decide⟩
  simp only [List.mem_cons, List.not_mem_nil, or_false] at member
  rcases member with rfl | rfl <;> exact ⟨by decide, by decide⟩

theorem message_reused_iff_lookups :
    runCalls [.set [56, 61, 97, 59, 57, 61, 98, 59], .getPair 9, .getPair 35] fresh ≠ .error .assertion ↔
      ∀ call ∈ [Call.getPair 9, .getPair 35], call.isSet = false := by
  refine message_reused_iff [.set [56, 61, 97, 59, 57, 61, 98, 59], .getPair 9, .getPair 35] fun call member => ?_
  simp only [List.mem_cons, List.not_mem_nil, or_false] at member
  rcases member with rfl | rfl | rfl
  · exact message_normal
  · exact show 9 ∈ clipper.acceptedTags by decide
  · exact show 35 ∈ clipper.acceptedTags by decide

theorem second_message_aborts :
    (∀ call ∈ [Call.set [56, 61, 97, 59, 57, 61, 98, 59], .set [56, 61, 97, 59, 57, 61, 98, 59]], call.Normal) ∧
      runCalls [.set [56, 61, 97, 59, 57, 61, 98, 59], .set [56, 61, 97, 59, 57, 61, 98, 59]] fresh = .error .assertion := by
  refine ⟨fun call member => ?_, rfl⟩
  simp only [List.mem_cons, List.not_mem_nil, or_false, or_self] at member
  exact member ▸ message_normal

end V1

end Libx.Tvp

import Libx.Argon2.Filling

set_option autoImplicit false

namespace Libx.Argon2

open Workers

section Places

variable (inst : Instance) (even : inst.Even)

def laneOf (inst : Instance) (a : Nat) : Nat := a / inst.laneLength.toNat
def sliceOf (inst : Instance) (a : Nat) : Nat := a % inst.laneLength.toNat / inst.segmentLength.toNat

def owner (inst : Instance) (slice a : Nat) : Option (Fin inst.lanes.toNat) :=
  if inside : laneOf inst a < inst.lanes.toNat then if sliceOf inst a = slice then some ⟨laneOf inst a, inside⟩ else none else none

theorem owner_iff (slice a : Nat) (lane : Fin inst.lanes.toNat) :
    owner inst slice a = some lane ↔ laneOf inst a = lane.val ∧ sliceOf inst a = slice := by
  rw [owner]
  constructor
  · intro owned
    split_ifs at owned with inside here
    exact ⟨congrArg Fin.val (Option.some.inj owned), here⟩
  · rintro ⟨own, here⟩
    rw [dif_pos (own ▸ lane.isLt), if_pos here]
    exact congrArg some (Fin.ext own)

def Readable (inst : Instance) (slice : Nat) (lane : Fin inst.lanes.toNat) (a : Nat) : Prop :=
  owner inst slice a = none ∨ owner inst slice a = some lane

theorem own_lane_readable (slice a : Nat) (lane : Fin inst.lanes.toNat) (own : laneOf inst a = lane.val) : Readable inst slice lane a := by
  cases owned : owner inst slice a with
  | none => exact .inl owned
  | some other =>
      have same := ((owner_iff inst slice a other).mp owned).1
      right
      rw [owned, Fin.ext (same.symm.trans own)]

theorem other_slice_readable (slice a : Nat) (lane : Fin inst.lanes.toNat) (apart : sliceOf inst a ≠ slice) :
    Readable inst slice lane a := by
  cases owned : owner inst slice a with
  | none => exact .inl owned
  | some other => exact absurd ((owner_iff inst slice a other).mp owned).2 apart

theorem lane_fits (lane o : Nat) (known : lane < inst.lanes.toNat) (inside : o < inst.laneLength.toNat) :
    lane * inst.laneLength.toNat + o < inst.lanes.toNat * inst.laneLength.toNat := by
  have next := Nat.mul_le_mul_right inst.laneLength.toNat (Nat.succ_le_of_lt known)
  rw [Nat.succ_mul] at next
  omega

include even

theorem lane_positive : 0 < inst.laneLength.toNat := by
  have two := even.segment
  rw [even.lane]
  omega

theorem lane_place (lane o : Nat) (inside : o < inst.laneLength.toNat) :
    laneOf inst (lane * inst.laneLength.toNat + o) = lane ∧ (lane * inst.laneLength.toNat + o) % inst.laneLength.toNat = o := by
  constructor
  · rw [laneOf, Nat.mul_comm, Nat.mul_add_div (lane_positive inst even), Nat.div_eq_of_lt inside, Nat.add_zero]
  · rw [Nat.mul_comm, Nat.mul_add_mod, Nat.mod_eq_of_lt inside]

theorem slice_place (slice i : Nat) (few : slice < 4) (inside : i < inst.segmentLength.toNat) :
    slice * inst.segmentLength.toNat + i < inst.laneLength.toNat ∧
      (slice * inst.segmentLength.toNat + i) / inst.segmentLength.toNat = slice := by
  have atMost := slice_length inst slice (by omega)
  constructor
  · rw [even.lane]
    omega
  · rw [Nat.mul_comm, Nat.mul_add_div (by omega), Nat.div_eq_of_lt inside, Nat.add_zero]

end Places

section Turns

variable (fillBlock : Block → Block → Block → Bool → Block) (inst : Instance) (pass slice : Nat) (lane : Fin inst.lanes.toNat)

def Segment.offset (inst : Instance) (slice : Nat) (segment : Segment) : Nat := slice * inst.segmentLength.toNat + segment.i.toNat

-- The previous block is the one before, or the last one of the lane; the offset
-- is put right in the turn for the second block.
structure Segment.Steady (inst : Instance) (pass slice lane : Nat) (segment : Segment) : Prop where
  started : (startingIndex (place pass slice lane)).toNat ≤ segment.i.toNat
  i : segment.i.toNat ≤ inst.segmentLength.toNat
  curr : segment.currOffset.toNat = lane * inst.laneLength.toNat + segment.offset inst slice
  first : segment.offset inst slice = 0 → segment.prevOffset.toNat = lane * inst.laneLength.toNat + (inst.laneLength.toNat - 1)
  later : 2 ≤ segment.offset inst slice → segment.prevOffset.toNat + 1 = segment.currOffset.toNat

variable (even : inst.Even) (few : slice < 4)
include even few

theorem previous_place (segment : Segment) (steady : segment.Steady inst pass slice lane) (more : segment.i.toNat < inst.segmentLength.toNat) :
    ∃ o < inst.laneLength.toNat, (segment.previous inst).toNat = lane * inst.laneLength.toNat + o ∧
      (o + 1) % inst.laneLength.toNat = segment.offset inst slice := by
  obtain ⟨inside, _⟩ := slice_place inst even slice segment.i.toNat few more
  have positive := lane_positive inst even
  have four := even.lane
  have two := even.segment
  have place := (lane_place inst even lane (segment.offset inst slice) inside).2
  have curr := steady.curr
  have here : segment.currOffset % inst.laneLength = 1 ↔ segment.offset inst slice = 1 := by
    rw [← UInt32.toNat_inj, UInt32.toNat_mod, curr, place]
    rfl
  have inside' : segment.offset inst slice < inst.laneLength.toNat := inside
  rw [Segment.previous]
  by_cases second : segment.offset inst slice = 1
  · rw [if_pos (here.mpr second), less_one _ (by omega), curr]
    exact ⟨0, by omega, by omega, by rw [second, Nat.mod_eq_of_lt (by omega)]⟩
  · rw [if_neg (mt here.mp second)]
    by_cases start : segment.offset inst slice = 0
    · refine ⟨inst.laneLength.toNat - 1, by omega, steady.first start, ?_⟩
      rw [start, Nat.sub_add_cancel (by omega), Nat.mod_self]
    · have before := steady.later (by omega)
      exact ⟨segment.offset inst slice - 1, by omega, by omega, by rw [Nat.sub_add_cancel (by omega), Nat.mod_eq_of_lt inside']⟩

theorem current_owned (segment : Segment) (steady : segment.Steady inst pass slice lane)
    (more : segment.i.toNat < inst.segmentLength.toNat) : owner inst slice segment.currOffset.toNat = some lane := by
  obtain ⟨inside, own⟩ := slice_place inst even slice segment.i.toNat few more
  obtain ⟨here, rest⟩ := lane_place inst even lane (segment.offset inst slice) inside
  rw [owner_iff, steady.curr, sliceOf, rest]
  exact ⟨here, own⟩

omit even few in
theorem place_lane : (place pass slice lane).lane.toNat = lane.val :=
  UInt32.toNat_ofNat_of_lt' (Nat.lt_trans lane.isLt inst.lanes.toNat_lt)

omit even in
theorem place_slice : (UInt8.ofNat slice).toNat = slice := UInt8.toNat_ofNat_of_lt' (by show slice < 256; omega)

omit even in
theorem place_within (segment : Segment) (steady : segment.Steady inst pass slice lane)
    (more : segment.i.toNat < inst.segmentLength.toNat) : ({ place pass slice lane with index := segment.i } : Position).Within inst := {
  lane := (place_lane inst pass slice lane).symm ▸ lane.isLt
  slice := by
    show (UInt8.ofNat slice).toNat < 4
    rw [place_slice slice few]
    exact few
  index := more
  started := by
    intro first start
    have started := steady.started
    rw [startingIndex, if_pos ⟨first, start⟩] at started
    exact started }

omit few even in
theorem ref_lane_known (lanes : 1 ≤ inst.lanes.toNat) (segment : Segment) (memory : Memory) :
    (segment.refLane fillBlock inst (place pass slice lane) memory).toNat < inst.lanes.toNat := by
  rw [Segment.refLane]
  split_ifs
  · rw [UInt32.toNat_toUInt64, place_lane]
    exact lane.isLt
  · rw [UInt64.toNat_mod, UInt32.toNat_toUInt64]
    exact Nat.mod_lt _ lanes

structure Segment.Refers (inst : Instance) (pass slice lane : Nat) (segment : Segment) (a : Nat) : Prop where
  known : laneOf inst a < inst.lanes.toNat
  current : a % inst.laneLength.toNat ≠ segment.offset inst slice
  previous : (a % inst.laneLength.toNat + 1) % inst.laneLength.toNat ≠ segment.offset inst slice
  finished : sliceOf inst a ≠ slice ∨ laneOf inst a = lane ∧ a % inst.laneLength.toNat < segment.offset inst slice
  filled : UInt32.ofNat pass = 0 → a % inst.laneLength.toNat < segment.offset inst slice

theorem reference_place (segment : Segment) (steady : segment.Steady inst pass slice lane)
    (more : segment.i.toNat < inst.segmentLength.toNat) (memory : Memory) :
    segment.Refers inst pass slice lane (segment.refPlace fillBlock inst (place pass slice lane) memory) := by
  have known := ref_lane_known fillBlock inst pass slice lane even.lanes segment memory
  have own : (place pass slice lane).pass = 0 → (place pass slice lane).slice = 0 →
      decide (segment.refLane fillBlock inst (place pass slice lane) memory = (place pass slice lane).lane.toUInt64) = true := by
    intro first start
    rw [Segment.refLane, if_pos ⟨first, start⟩]
    exact decide_eq_true rfl
  have allowed := reference_allowed inst even _ (place_within inst pass slice lane few segment steady more)
    (segment.pseudoRand fillBlock inst (place pass slice lane) memory &&& 0xFFFFFFFF).toUInt32 _ own
  have offset : ({ place pass slice lane with index := segment.i } : Position).offset inst = segment.offset inst slice := by
    show (UInt8.ofNat slice).toNat * inst.segmentLength.toNat + segment.i.toNat = _
    rw [place_slice slice few]
    rfl
  rw [offset] at allowed
  have inside : (segment.refIndex fillBlock inst (place pass slice lane) memory).toNat < inst.laneLength.toNat := allowed.1
  obtain ⟨here, rest⟩ := lane_place inst even (segment.refLane fillBlock inst (place pass slice lane) memory).toNat _ inside
  have fits := lane_fits inst _ _ known inside
  have small := even.memory
  have whole : segment.refPlace fillBlock inst (place pass slice lane) memory =
      (segment.refLane fillBlock inst (place pass slice lane) memory).toNat * inst.laneLength.toNat +
        (segment.refIndex fillBlock inst (place pass slice lane) memory).toNat := by
    rw [Nat.mul_comm] at fits ⊢
    rw [Segment.refPlace, UInt64.toNat_add, UInt64.toNat_mul, UInt32.toNat_toUInt64, UInt32.toNat_toUInt64, Nat.mod_add_mod]
    exact Nat.mod_eq_of_lt (Nat.lt_trans fits (by omega))
  rw [← whole] at here rest
  obtain ⟨_, current, previous, finished, filled⟩ := allowed
  refine ⟨here ▸ known, rest ▸ current, rest ▸ previous, ?_, fun first => rest ▸ filled first⟩
  rcases finished with other | ⟨same, earlier⟩
  · left
    rw [sliceOf, rest]
    exact fun same => other (same.trans (place_slice slice few).symm)
  · right
    rw [here, rest, of_decide_eq_true same, UInt32.toNat_toUInt64, place_lane]
    exact ⟨rfl, earlier⟩

omit even few in
theorem reference_readable (segment : Segment) (a : Nat) (refers : segment.Refers inst pass slice lane a) :
    Readable inst slice lane a := by
  rcases refers.finished with other | ⟨same, _⟩
  · exact other_slice_readable inst slice a lane other
  · exact own_lane_readable inst slice a lane same

omit few in
theorem previous_readable (segment : Segment) (o : Nat) (inside : o < inst.laneLength.toNat)
    (previous : (segment.previous inst).toNat = lane * inst.laneLength.toNat + o) :
    Readable inst slice lane (segment.previous inst).toNat := by
  rw [previous]
  exact own_lane_readable inst slice _ lane (lane_place inst even lane o inside).1

omit even few in
theorem turn_reads (position : Position) (segment : Segment) (memory memory' : Memory)
    (previous : memory (segment.previous inst).toNat = memory' (segment.previous inst).toNat)
    (reference : memory (segment.refPlace fillBlock inst position memory) = memory' (segment.refPlace fillBlock inst position memory))
    (current : ∀ ref, fillBlock segment.state ref (memory segment.currOffset.toNat) (!(inst.version = version10 ∨ position.pass = 0)) =
      fillBlock segment.state ref (memory' segment.currOffset.toNat) (!(inst.version = version10 ∨ position.pass = 0))) :
    ∃ after block, segment.turn fillBlock inst position memory = (after, Function.update memory segment.currOffset.toNat block) ∧
      segment.turn fillBlock inst position memory' = (after, Function.update memory' segment.currOffset.toNat block) := by
  have rand : segment.pseudoRand fillBlock inst position memory' = segment.pseudoRand fillBlock inst position memory := by
    rw [Segment.pseudoRand, Segment.pseudoRand, previous]
  have refLane : segment.refLane fillBlock inst position memory' = segment.refLane fillBlock inst position memory := by
    rw [Segment.refLane, Segment.refLane, rand]
  have refIndex : segment.refIndex fillBlock inst position memory' = segment.refIndex fillBlock inst position memory := by
    rw [Segment.refIndex, Segment.refIndex, refLane, rand]
  have refPlace : segment.refPlace fillBlock inst position memory' = segment.refPlace fillBlock inst position memory := by
    rw [Segment.refPlace, Segment.refPlace, refLane, refIndex]
  refine ⟨_, _, rfl, ?_⟩
  rw [Segment.turn, refPlace, ← reference, ← current]

theorem turn_congr (segment : Segment) (steady : segment.Steady inst pass slice lane) (more : segment.i.toNat < inst.segmentLength.toNat)
    (memory memory' : Memory) (agree : ∀ a, Readable inst slice lane a → memory a = memory' a) :
    ∃ after block, segment.turn fillBlock inst (place pass slice lane) memory =
        (after, Function.update memory segment.currOffset.toNat block) ∧
      segment.turn fillBlock inst (place pass slice lane) memory' =
        (after, Function.update memory' segment.currOffset.toNat block) := by
  obtain ⟨o, inside, previous, _⟩ := previous_place inst pass slice lane even few segment steady more
  have refers := reference_place fillBlock inst pass slice lane even few segment steady more memory
  have current := agree _ (.inr (current_owned inst pass slice lane even few segment steady more))
  exact turn_reads fillBlock inst _ segment memory memory' (agree _ (previous_readable inst slice lane even segment o inside previous))
    (agree _ (reference_readable inst pass slice lane segment _ refers)) fun ref => by rw [current]

omit even few in
theorem next_index (segment : Segment) (more : segment.i.toNat < inst.segmentLength.toNat) : (segment.i + 1).toNat = segment.i.toNat + 1 := by
  have iFits := inst.segmentLength.toNat_lt
  exact add_small _ _ (show segment.i.toNat + 1 < 2 ^ 32 by omega)

omit even few in
theorem turn_offset (segment : Segment) (more : segment.i.toNat < inst.segmentLength.toNat) (memory : Memory) :
    (segment.turn fillBlock inst (place pass slice lane) memory).1.offset inst slice = segment.offset inst slice + 1 := by
  show slice * inst.segmentLength.toNat + (segment.i + 1).toNat = _
  rw [next_index inst segment more]
  rfl

theorem turn_steady (segment : Segment) (steady : segment.Steady inst pass slice lane) (more : segment.i.toNat < inst.segmentLength.toNat)
    (memory : Memory) : (segment.turn fillBlock inst (place pass slice lane) memory).1.Steady inst pass slice lane := by
  obtain ⟨inside, _⟩ := slice_place inst even slice segment.i.toNat few more
  have fits := lane_fits inst lane (segment.offset inst slice) lane.isLt inside
  have small := even.memory
  have curr := steady.curr
  have one : (1 : UInt32).toNat = 1 := rfl
  have i := next_index inst segment more
  have currNext : (segment.currOffset + 1).toNat = segment.currOffset.toNat + 1 := by
    rw [add_small _ _ (by rw [one]; omega), one]
  have offset := turn_offset fillBlock inst pass slice lane segment more memory
  refine ⟨?_, ?_, ?_, fun zero => ?_, fun _ => ?_⟩
  · show _ ≤ (segment.i + 1).toNat
    rw [i]
    exact Nat.le_succ_of_le steady.started
  · show (segment.i + 1).toNat ≤ _
    rw [i]
    exact more
  · show (segment.currOffset + 1).toNat = _
    rw [currNext, curr, offset]
    rfl
  · rw [offset] at zero
    exact absurd zero (Nat.succ_ne_zero _)
  · obtain ⟨o, below, previous, next⟩ := previous_place inst pass slice lane even few segment steady more
    have before : o + 1 = segment.offset inst slice := by
      rcases Nat.lt_or_ge (o + 1) inst.laneLength.toNat with short | whole
      · rw [← next, Nat.mod_eq_of_lt short]
      · rw [show o + 1 = inst.laneLength.toNat by omega, Nat.mod_self] at next
        omega
    show (segment.previous inst + 1).toNat + 1 = (segment.currOffset + 1).toNat
    rw [add_small _ _ (by rw [one]; omega), one, currNext]
    omega

omit even in
theorem starting_cases : (startingIndex (place pass slice lane)).toNat = 0 ∨
    (startingIndex (place pass slice lane)).toNat = 2 ∧ slice = 0 := by
  rw [startingIndex]
  split_ifs with start
  · right
    refine ⟨rfl, ?_⟩
    rw [← place_slice slice few]
    exact congrArg UInt8.toNat start.2
  · exact .inl rfl

theorem start_place (i : Nat) (start : i = 0 ∨ i = 2 ∧ slice = 0) : slice * inst.segmentLength.toNat + i < inst.laneLength.toNat := by
  have two := even.segment
  have four := even.lane
  rcases start with rfl | ⟨rfl, rfl⟩
  · exact (slice_place inst even slice 0 few (by omega)).1
  · omega

theorem start_steady (memory : Memory) : (segmentStart fillBlock inst (place pass slice lane) memory).Steady inst pass slice lane := by
  have start := starting_cases inst pass slice lane few
  have inside := start_place inst slice even few _ start
  have fits := lane_fits inst lane _ lane.isLt inside
  have whole := lane_fits inst lane (inst.laneLength.toNat - 1) lane.isLt (by omega)
  have small := even.memory
  have two := even.segment
  have curr : (segmentStart fillBlock inst (place pass slice lane) memory).currOffset.toNat = lane * inst.laneLength.toNat +
      (slice * inst.segmentLength.toNat + (startingIndex (place pass slice lane)).toNat) := by
    have laneStart : ((place pass slice lane).lane * inst.laneLength).toNat = lane * inst.laneLength.toNat := by
      rw [mul_small _ _ (by rw [place_lane]; omega), place_lane]
    have sliceStart : ((place pass slice lane).slice.toUInt32 * inst.segmentLength).toNat = slice * inst.segmentLength.toNat := by
      have value : (place pass slice lane).slice.toUInt32.toNat = slice := by
        rw [UInt8.toNat_toUInt32]
        exact place_slice slice few
      rw [mul_small _ _ (by rw [value]; omega), value]
    show ((place pass slice lane).lane * inst.laneLength + (place pass slice lane).slice.toUInt32 * inst.segmentLength +
      startingIndex (place pass slice lane)).toNat = _
    rw [add_small _ _ (by rw [add_small _ _ (by omega)]; omega), add_small _ _ (by omega), laneStart, sliceStart, Nat.add_assoc]
  generalize made : segmentStart fillBlock inst (place pass slice lane) memory = segment at curr ⊢
  have i : segment.i = startingIndex (place pass slice lane) := by
    rw [← made]
    rfl
  have prev : segment.prevOffset =
      if segment.currOffset % inst.laneLength = 0 then segment.currOffset + inst.laneLength - 1 else segment.currOffset - 1 := by
    rw [← made]
    rfl
  have offset : segment.offset inst slice = slice * inst.segmentLength.toNat + (startingIndex (place pass slice lane)).toNat := by
    rw [Segment.offset, i]
  have wraps : segment.currOffset % inst.laneLength = 0 ↔ segment.offset inst slice = 0 := by
    rw [← UInt32.toNat_inj, UInt32.toNat_mod, curr, (lane_place inst even lane _ inside).2, offset]
    rfl
  refine ⟨by rw [i], by rw [i]; omega, by rw [curr, offset], fun zero => ?_, fun later => ?_⟩
  · have sum := add_small segment.currOffset inst.laneLength (by rw [curr]; omega)
    rw [prev, if_pos (wraps.mpr zero), less_one _ (by omega), sum, curr]
    omega
  · rw [prev, if_neg (mt wraps.mp (by omega)), less_one _ (by omega)]
    omega

theorem start_previous (memory : Memory) :
    ∃ o < inst.laneLength.toNat,
      (segmentStart fillBlock inst (place pass slice lane) memory).prevOffset.toNat = lane * inst.laneLength.toNat + o ∧
      (o + 1) % inst.laneLength.toNat = slice * inst.segmentLength.toNat + (startingIndex (place pass slice lane)).toNat := by
  have steady := start_steady fillBlock inst pass slice lane even few memory
  have start := starting_cases inst pass slice lane few
  have inside := start_place inst slice even few _ start
  have two := even.segment
  have four := even.lane
  have curr := steady.curr
  have offset : (segmentStart fillBlock inst (place pass slice lane) memory).offset inst slice =
      slice * inst.segmentLength.toNat + (startingIndex (place pass slice lane)).toNat := rfl
  rw [← offset] at inside ⊢
  by_cases zero : (segmentStart fillBlock inst (place pass slice lane) memory).offset inst slice = 0
  · exact ⟨inst.laneLength.toNat - 1, by omega, steady.first zero, by rw [zero, Nat.sub_add_cancel (by omega), Nat.mod_self]⟩
  · have many : 2 ≤ (segmentStart fillBlock inst (place pass slice lane) memory).offset inst slice := by
      rcases Nat.eq_zero_or_pos slice with none | some_
      · have product : slice * inst.segmentLength.toNat = 0 := by rw [none, Nat.zero_mul]
        omega
      · have segments := Nat.le_mul_of_pos_left inst.segmentLength.toNat some_
        omega
    have before := steady.later many
    refine ⟨(segmentStart fillBlock inst (place pass slice lane) memory).offset inst slice - 1, by omega, ?_, ?_⟩
    · rw [← Nat.add_sub_assoc (by omega), ← curr, ← before, Nat.add_sub_cancel]
    · rw [Nat.sub_add_cancel (by omega), Nat.mod_eq_of_lt inside]

theorem start_readable (memory : Memory) :
    Readable inst slice lane (segmentStart fillBlock inst (place pass slice lane) memory).prevOffset.toNat := by
  obtain ⟨o, inside, prev, _⟩ := start_previous fillBlock inst pass slice lane even few memory
  rw [prev]
  exact own_lane_readable inst slice _ lane (lane_place inst even lane o inside).1

omit even few in
theorem start_same (memory memory' : Memory)
    (previous : memory (segmentStart fillBlock inst (place pass slice lane) memory).prevOffset.toNat =
      memory' (segmentStart fillBlock inst (place pass slice lane) memory).prevOffset.toNat) :
    segmentStart fillBlock inst (place pass slice lane) memory = segmentStart fillBlock inst (place pass slice lane) memory' := by
  have same : segmentStart fillBlock inst (place pass slice lane) memory' =
      { segmentStart fillBlock inst (place pass slice lane) memory with
        state := memory' (segmentStart fillBlock inst (place pass slice lane) memory).prevOffset.toNat } := rfl
  rw [same, ← previous]
  rfl

end Turns

section Slices

variable (fillBlock : Block → Block → Block → Bool → Block) (inst : Instance) (pass slice : Nat)

def ThreadSteady (inst : Instance) (pass slice : Nat) (lane : Fin inst.lanes.toNat) (thread : Option Segment) : Prop :=
  ∀ segment, thread = some segment → segment.Steady inst pass slice lane

variable (even : inst.Even) (few : slice < 4)

theorem joined_rests (lane : Fin inst.lanes.toNat) (thread : Option Segment) (memory : Memory) (joined : Joined inst thread) :
    threadTurn fillBlock inst (pass, slice) lane thread memory = (thread, memory) := by
  obtain ⟨segment, rfl, done⟩ := joined
  rw [threadTurn, Segment.next, if_neg done]

include even few

theorem threads_confined : Confined (threadTurn fillBlock inst (pass, slice)) (owner inst slice) (ThreadSteady inst pass slice) := by
  constructor
  · intro lane thread memory steady
    cases thread with
    | none =>
        rintro segment same
        obtain rfl := Option.some.inj same
        exact start_steady fillBlock inst pass slice lane even few memory
    | some segment =>
        rintro after same
        obtain rfl := Option.some.inj same
        rw [Segment.next]
        split_ifs with more
        · exact turn_steady fillBlock inst pass slice lane even few segment (steady segment rfl) more memory
        · exact steady segment rfl
  · intro lane thread memory a steady apart
    cases thread with
    | none => rfl
    | some segment =>
        rw [threadTurn, Segment.next]
        split_ifs with more
        · have owned := current_owned inst pass slice lane even few segment (steady segment rfl) more
          have elsewhere : a ≠ segment.currOffset.toNat := by
            rintro rfl
            exact apart owned
          exact Function.update_of_ne elsewhere _ _
        · rfl
  · intro lane thread memory memory' steady agree
    cases thread with
    | none =>
        have prev := agree _ (start_readable fillBlock inst pass slice lane even few memory)
        exact ⟨congrArg some (start_same fillBlock inst pass slice lane memory memory' prev), fun a mine => agree a (.inr mine)⟩
    | some segment =>
        rw [threadTurn, threadTurn, Segment.next, Segment.next]
        by_cases more : segment.i < inst.segmentLength
        · obtain ⟨after, block, first, second⟩ := turn_congr fillBlock inst pass slice lane even few segment (steady segment rfl) more
            memory memory' agree
          rw [if_pos more, if_pos more, first, second]
          refine ⟨rfl, fun a mine => ?_⟩
          show Function.update memory segment.currOffset.toNat block a = Function.update memory' segment.currOffset.toNat block a
          by_cases here : a = segment.currOffset.toNat
          · rw [here, Function.update_self, Function.update_self]
          · rw [Function.update_of_ne here, Function.update_of_ne here]
            exact agree a (.inr mine)
        · rw [if_neg more, if_neg more]
          exact ⟨rfl, fun a mine => agree a (.inr mine)⟩

theorem turns_apart (schedule : List (Fin inst.lanes.toNat)) (memory : Memory) (lane : Fin inst.lanes.toNat) (segment : Segment)
    (at_work : (run (threadTurn fillBlock inst (pass, slice)) schedule ⟨fun _ => none, memory⟩).locals lane = some segment)
    (more : segment.i.toNat < inst.segmentLength.toNat) (now : Memory) :
    owner inst slice segment.currOffset.toNat = some lane ∧ Readable inst slice lane (segment.previous inst).toNat ∧
      Readable inst slice lane (segment.refPlace fillBlock inst (place pass slice lane) now) ∧
      segment.Refers inst pass slice lane (segment.refPlace fillBlock inst (place pass slice lane) now) := by
  have steady := run_kept (threads_confined fillBlock inst pass slice even few) schedule ⟨fun _ => none, memory⟩ (fun _ => nofun) lane
    segment at_work
  obtain ⟨o, inside, previous, _⟩ := previous_place inst pass slice lane even few segment steady more
  have refers := reference_place fillBlock inst pass slice lane even few segment steady more now
  exact ⟨current_owned inst pass slice lane even few segment steady more,
    previous_readable inst slice lane even segment o inside previous, reference_readable inst pass slice lane segment _ refers, refers⟩

omit even few

theorem alone_segment (lane : Fin inst.lanes.toNat) (n : Nat) (memory : Memory) :
    alone (threadTurn fillBlock inst (pass, slice)) lane (n + 1) (none, memory) =
      let state := (Segment.next fillBlock inst (place pass slice lane))^[n]
        (segmentStart fillBlock inst (place pass slice lane) memory, memory)
      (some state.1, state.2) := by
  induction n with
  | zero => rfl
  | succ n ih =>
      rw [alone_succ, ih, Function.iterate_succ_apply']
      rfl

theorem turns_counted (position : Position) (state : Segment × Memory) (n : Nat) :
    inst.segmentLength.toNat ≤ ((Segment.next fillBlock inst position)^[n] state).1.i.toNat ∨
      n ≤ ((Segment.next fillBlock inst position)^[n] state).1.i.toNat := by
  induction n with
  | zero => exact .inr (Nat.zero_le _)
  | succ n ih =>
      rw [Function.iterate_succ_apply']
      generalize (Segment.next fillBlock inst position)^[n] state = now at ih
      rw [Segment.next]
      split_ifs with more
      · have below := UInt32.lt_iff_toNat_lt.mp more
        have fits := inst.segmentLength.toNat_lt
        have one : (1 : UInt32).toNat = 1 := rfl
        show _ ≤ (now.1.i + 1).toNat ∨ _ ≤ (now.1.i + 1).toNat
        rw [add_small _ _ (by rw [one]; omega), one]
        omega
      · have above := UInt32.le_iff_toNat_le.mp (UInt32.not_lt.mp more)
        exact .inl above

theorem alone_fills (lane : Fin inst.lanes.toNat) (memory : Memory) :
    Joined inst (alone (threadTurn fillBlock inst (pass, slice)) lane (inst.segmentLength.toNat + 1) (none, memory)).1 ∧
      (alone (threadTurn fillBlock inst (pass, slice)) lane (inst.segmentLength.toNat + 1) (none, memory)).2 =
        fillSegment fillBlock inst (place pass slice lane) memory := by
  rw [alone_segment]
  refine ⟨⟨_, rfl, ?_⟩, rfl⟩
  have counted := turns_counted fillBlock inst (place pass slice lane)
    (segmentStart fillBlock inst (place pass slice lane) memory, memory) inst.segmentLength.toNat
  rw [or_self] at counted
  exact UInt32.not_lt.mpr (UInt32.le_iff_toNat_le.mpr counted)

def inTurn (inst : Instance) (lanes : List (Fin inst.lanes.toNat)) : List (Fin inst.lanes.toNat) :=
  lanes.flatMap (List.replicate (inst.segmentLength.toNat + 1))

theorem in_turn_fills (lanes : List (Fin inst.lanes.toNat)) (different : lanes.Nodup)
    (world : World (Fin inst.lanes.toNat) (Option Segment) Nat Block) (fresh : ∀ lane ∈ lanes, world.locals lane = none) :
    (run (threadTurn fillBlock inst (pass, slice)) (inTurn inst lanes) world).memory =
        lanes.foldl (fun memory (lane : Fin inst.lanes.toNat) => fillSegment fillBlock inst (place pass slice lane) memory) world.memory ∧
      (∀ lane ∈ lanes, Joined inst ((run (threadTurn fillBlock inst (pass, slice)) (inTurn inst lanes) world).locals lane)) ∧
      ∀ lane, lane ∉ lanes →
        (run (threadTurn fillBlock inst (pass, slice)) (inTurn inst lanes) world).locals lane = world.locals lane := by
  induction lanes generalizing world with
  | nil => exact ⟨rfl, fun _ absent => absurd absent List.not_mem_nil, fun _ _ => rfl⟩
  | cons first lanes ih =>
      obtain ⟨apart, later⟩ := List.nodup_cons.mp different
      obtain ⟨joined, fills⟩ := alone_fills fillBlock inst pass slice first world.memory
      rw [inTurn, List.flatMap_cons, run_append, run_replicate, fresh first List.mem_cons_self, ← inTurn, fills]
      have elsewhere : ∀ lane, lane ≠ first → Function.update world.locals first
          (alone (threadTurn fillBlock inst (pass, slice)) first (inst.segmentLength.toNat + 1) (none, world.memory)).1 lane =
            world.locals lane := fun lane other => Function.update_of_ne other _ _
      have stillFresh : ∀ lane ∈ lanes, Function.update world.locals first
          (alone (threadTurn fillBlock inst (pass, slice)) first (inst.segmentLength.toNat + 1) (none, world.memory)).1 lane = none := by
        intro lane member
        rw [elsewhere lane (fun same => apart (by rwa [← same]))]
        exact fresh lane (List.mem_cons_of_mem first member)
      obtain ⟨memory, ends, others⟩ := ih later
        ⟨Function.update world.locals first
          (alone (threadTurn fillBlock inst (pass, slice)) first (inst.segmentLength.toNat + 1) (none, world.memory)).1,
          fillSegment fillBlock inst (place pass slice first) world.memory⟩ stillFresh
      refine ⟨memory, ?_, ?_⟩
      · intro lane member
        rcases List.mem_cons.mp member with same | behind
        · rw [same, others first apart]
          show Joined inst (Function.update world.locals first _ first)
          rw [Function.update_self]
          exact joined
        · exact ends lane behind
      · intro lane outside
        obtain ⟨other, behind⟩ := not_or.mp (mt List.mem_cons.mpr outside)
        rw [others lane behind]
        exact elsewhere lane other

theorem fill_slice_in_turn (memory : Memory) :
    (run (threadTurn fillBlock inst (pass, slice)) (inTurn inst (List.finRange inst.lanes.toNat)) ⟨fun _ => none, memory⟩).memory =
        fillSlice fillBlock inst memory (pass, slice) ∧
      ∀ lane, Joined inst
        ((run (threadTurn fillBlock inst (pass, slice)) (inTurn inst (List.finRange inst.lanes.toNat)) ⟨fun _ => none, memory⟩).locals
          lane) := by
  obtain ⟨filled, joined, _⟩ := in_turn_fills fillBlock inst pass slice (List.finRange inst.lanes.toNat) (List.nodup_finRange _)
    ⟨fun _ => none, memory⟩ (fun _ _ => rfl)
  refine ⟨filled.trans ?_, fun lane => joined lane (List.mem_finRange lane)⟩
  rw [fillSlice, ← List.map_coe_finRange_eq_range, List.foldl_map]

include even few

theorem fill_slice_threads (schedule : List (Fin inst.lanes.toNat)) (memory filled : Memory)
    (threads : fillSliceThreads fillBlock inst schedule memory (pass, slice) = some filled) :
    filled = fillSlice fillBlock inst memory (pass, slice) := by
  rw [fillSliceThreads, Option.ite_none_right_eq_some, Option.some.injEq] at threads
  obtain ⟨joined, rfl⟩ := threads
  obtain ⟨sequential, ends⟩ := fill_slice_in_turn fillBlock inst pass slice memory
  rw [← sequential]
  exact run_unique (threads_confined fillBlock inst pass slice even few) (Joined inst)
    (fun lane thread memory => joined_rests fillBlock inst pass slice lane thread memory) schedule _ _ (fun _ => nofun) joined ends

theorem enough_turns (schedule : List (Fin inst.lanes.toNat)) (memory : Memory)
    (enough : ∀ lane, inst.segmentLength.toNat < schedule.count lane) :
    ∃ filled, fillSliceThreads fillBlock inst schedule memory (pass, slice) = some filled := by
  refine ⟨_, if_pos fun lane => ?_⟩
  rw [((run_alone (threads_confined fillBlock inst pass slice even few) schedule ⟨fun _ => none, memory⟩ (fun _ => nofun)).1 lane).1]
  obtain ⟨joined, _⟩ := alone_fills fillBlock inst pass slice lane memory
  obtain ⟨more, counted⟩ := Nat.exists_eq_add_of_le (Nat.succ_le_of_lt (enough lane))
  rw [counted, Nat.succ_eq_add_one]
  exact (alone_rests (Joined inst) (fun lane thread memory => joined_rests fillBlock inst pass slice lane thread memory) lane _ more _
    joined) ▸ joined

end Slices

theorem slices_few (inst : Instance) (at_ : Nat × Nat) (member : at_ ∈ slices inst) : at_.2 < 4 := by
  obtain ⟨pass, _, inside⟩ := List.mem_flatMap.mp member
  obtain ⟨slice, few, rfl⟩ := List.mem_map.mp inside
  exact List.mem_range.mp few

section Memory

variable (fillBlock : Block → Block → Block → Bool → Block) (inst : Instance) (even : inst.Even)
  (schedule : Nat × Nat → List (Fin inst.lanes.toNat))
include even

theorem threads_as_one (memory filled : Memory) (threads : fillMemoryBlocksMt fillBlock inst schedule memory = some filled) :
    filled = fillMemoryBlocksSt fillBlock inst memory := by
  rw [fillMemoryBlocksMt] at threads
  rw [fillMemoryBlocksSt]
  have few := slices_few inst
  generalize slices inst = todo at few threads ⊢
  induction todo generalizing memory with
  | nil => exact (Option.some.inj threads).symm
  | cons at_ todo ih =>
      rw [List.foldlM_cons] at threads
      obtain ⟨middle, here, later⟩ := Option.bind_eq_some_iff.mp threads
      obtain rfl := fill_slice_threads fillBlock inst at_.1 at_.2 even (few at_ List.mem_cons_self) _ memory middle here
      exact ih _ (fun other member => few other (List.mem_cons_of_mem at_ member)) later

theorem threads_finish (memory : Memory) (enough : ∀ at_ ∈ slices inst, ∀ lane, inst.segmentLength.toNat < (schedule at_).count lane) :
    ∃ filled, fillMemoryBlocksMt fillBlock inst schedule memory = some filled := by
  rw [fillMemoryBlocksMt]
  have few := slices_few inst
  generalize slices inst = todo at few enough
  induction todo generalizing memory with
  | nil => exact ⟨memory, rfl⟩
  | cons at_ todo ih =>
      obtain ⟨middle, here⟩ := enough_turns fillBlock inst at_.1 at_.2 even (few at_ List.mem_cons_self) _ memory
        (enough at_ List.mem_cons_self)
      rw [List.foldlM_cons, show fillSliceThreads fillBlock inst (schedule at_) memory at_ = some middle from here]
      exact ih _ (fun other member => few other (List.mem_cons_of_mem at_ member)) fun other member =>
        enough other (List.mem_cons_of_mem at_ member)

end Memory

theorem threads_fill (fillBlock : Block → Block → Block → Bool → Block) (inst : Instance) (even : inst.Even)
    (schedule : Nat × Nat → List (Fin inst.lanes.toNat)) (memory : Memory) :
    (∀ filled, fillMemoryBlocksMt fillBlock inst schedule memory = some filled → filled = fillMemoryBlocksSt fillBlock inst memory) ∧
      ((∀ at_ ∈ slices inst, ∀ lane, inst.segmentLength.toNat < (schedule at_).count lane) →
        fillMemoryBlocksMt fillBlock inst schedule memory = some (fillMemoryBlocksSt fillBlock inst memory)) := by
  refine ⟨threads_as_one fillBlock inst even schedule memory, fun enough => ?_⟩
  obtain ⟨filled, finished⟩ := threads_finish fillBlock inst even schedule memory enough
  rw [finished, threads_as_one fillBlock inst even schedule memory filled finished]

def sampleInstance : Instance := ⟨versionNumber, 1, 16, 2, 8, 2, 2, .id⟩

theorem sample_even : sampleInstance.Even := ⟨by decide, by decide, by decide, by decide⟩

def firstLane : Fin sampleInstance.lanes.toNat := ⟨0, by decide⟩
def secondLane : Fin sampleInstance.lanes.toNat := ⟨1, by decide⟩

theorem threads_fill_sample :
    fillMemoryBlocksMt fillBlockRef sampleInstance
        (fun _ => [secondLane, firstLane, firstLane, secondLane, firstLane, secondLane]) (fun _ => initBlockValue) =
      some (fillMemoryBlocksSt fillBlockRef sampleInstance fun _ => initBlockValue) :=
  (threads_fill _ sampleInstance sample_even _ _).2 fun _ _ =>
    show ∀ lane : Fin 2, 2 < ([1, 0, 0, 1, 0, 1] : List (Fin 2)).count lane by decide

theorem turns_apart_sample :
    ∃ segment : Segment, owner sampleInstance 1 segment.currOffset.toNat = some firstLane ∧
      ∀ now, segment.Refers sampleInstance 0 1 0
        (segment.refPlace fillBlockRef sampleInstance (place 0 1 0) now) := by
  have apart := turns_apart fillBlockRef sampleInstance 0 1 sample_even (by decide) [firstLane]
    (fun _ => initBlockValue) firstLane _ rfl (by decide)
  exact ⟨_, (apart fun _ => initBlockValue).1, fun now => (apart now).2.2.2⟩

end Libx.Argon2

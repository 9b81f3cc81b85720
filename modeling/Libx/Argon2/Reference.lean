import Libx.Argon2.Context

set_option autoImplicit false

namespace Libx.Argon2

structure Instance where
  version : UInt32
  passes : UInt32
  memoryBlocks : UInt32
  segmentLength : UInt32
  laneLength : UInt32
  lanes : UInt32
  threads : UInt32
  type : Argon2Type

structure Position where
  pass : UInt32
  lane : UInt32
  slice : UInt8
  index : UInt32

-- The conditional terms -1 are converted to uint32_t and wrap.
def referenceAreaSize (inst : Instance) (position : Position) (sameLane : Bool) : UInt32 :=
  if position.pass = 0 then
    if position.slice = 0 then position.index - 1
    else if sameLane then position.slice.toUInt32 * inst.segmentLength + position.index - 1
    else position.slice.toUInt32 * inst.segmentLength + (if position.index = 0 then -1 else 0)
  else if sameLane then inst.laneLength - inst.segmentLength + position.index - 1
  else inst.laneLength - inst.segmentLength + (if position.index = 0 then -1 else 0)

def startPosition (inst : Instance) (position : Position) : UInt32 :=
  if position.pass ≠ 0 then
    if position.slice.toUInt32 = syncPoints - 1 then 0 else (position.slice.toUInt32 + 1) * inst.segmentLength
  else 0

def indexAlpha (inst : Instance) (position : Position) (pseudoRand : UInt32) (sameLane : Bool) : UInt32 :=
  let areaSize := referenceAreaSize inst position sameLane
  let relativePosition := pseudoRand.toUInt64
  let relativePosition := (relativePosition * relativePosition) >>> 32
  let relativePosition := (areaSize - 1).toUInt64 - ((areaSize.toUInt64 * relativePosition) >>> 32)
  (((startPosition inst position).toUInt64 + relativePosition) % inst.laneLength.toUInt64).toUInt32

structure Instance.Even (inst : Instance) : Prop where
  segment : 2 ≤ inst.segmentLength.toNat
  lane : inst.laneLength.toNat = 4 * inst.segmentLength.toNat
  lanes : 1 ≤ inst.lanes.toNat
  memory : inst.lanes.toNat * inst.laneLength.toNat < 2 ^ 32

structure Position.Within (position : Position) (inst : Instance) : Prop where
  lane : position.lane.toNat < inst.lanes.toNat
  slice : position.slice.toNat < 4
  index : position.index.toNat < inst.segmentLength.toNat
  started : position.pass = 0 → position.slice = 0 → 2 ≤ position.index.toNat

def Position.offset (position : Position) (inst : Instance) : Nat :=
  position.slice.toNat * inst.segmentLength.toNat + position.index.toNat

section Reference

variable (inst : Instance) (even : inst.Even) (position : Position) (within : position.Within inst)

def openBlocks (inst : Instance) (position : Position) (sameLane : Bool) : Nat :=
  let finished := (if position.pass = 0 then position.slice.toNat else 3) * inst.segmentLength.toNat
  if sameLane then finished + position.index.toNat - 1 else if position.index = 0 then finished - 1 else finished

theorem less_one (x : UInt32) (positive : 1 ≤ x.toNat) : (x - 1).toNat = x.toNat - 1 :=
  UInt32.toNat_sub_of_le x 1 (UInt32.le_iff_toNat_le.mpr positive)

theorem add_small (x y : UInt32) (small : x.toNat + y.toNat < 2 ^ 32) : (x + y).toNat = x.toNat + y.toNat := by
  rw [UInt32.toNat_add, Nat.mod_eq_of_lt small]

theorem mul_small (x y : UInt32) (small : x.toNat * y.toNat < 2 ^ 32) : (x * y).toNat = x.toNat * y.toNat := by
  rw [UInt32.toNat_mul, Nat.mod_eq_of_lt small]

theorem unless_first (x : UInt32) (first : Prop) [Decidable first] (positive : 1 ≤ x.toNat) :
    (x + if first then -1 else 0).toNat = if first then x.toNat - 1 else x.toNat := by
  by_cases here : first
  · rw [if_pos here, if_pos here, ← UInt32.sub_eq_add_neg, less_one x positive]
  · rw [if_neg here, if_neg here, UInt32.add_zero]

theorem area_after (finished index : UInt32) (sameLane : Bool) (room : finished.toNat + index.toNat < 2 ^ 32) (some_ : 1 ≤ finished.toNat) :
    (if sameLane then finished + index - 1 else finished + if index = 0 then -1 else 0).toNat =
      if sameLane then finished.toNat + index.toNat - 1 else if index = 0 then finished.toNat - 1 else finished.toNat := by
  have sum := add_small finished index room
  cases sameLane with
  | true => exact (less_one _ (by omega)).trans (by rw [sum]; rfl)
  | false => exact unless_first finished _ some_

theorem slice_length (slices : Nat) (few : slices ≤ 3) : slices * inst.segmentLength.toNat ≤ 3 * inst.segmentLength.toNat :=
  Nat.mul_le_mul_right _ few

theorem area_place (area start lane : UInt32) (x : UInt64) (filled : 1 ≤ area.toNat) (small : x.toNat < 2 ^ 32)
    (positive : 0 < lane.toNat) :
    ∃ r < area.toNat, ((start.toUInt64 + ((area - 1).toUInt64 - ((area.toUInt64 * x) >>> 32))) % lane.toUInt64).toUInt32.toNat =
      (start.toNat + r) % lane.toNat := by
  have areaFits := area.toNat_lt
  have startFits := start.toNat_lt
  have laneFits := lane.toNat_lt
  have below : area.toNat * x.toNat < area.toNat * 2 ^ 32 := Nat.mul_lt_mul_of_pos_left small filled
  have taken : ((area.toUInt64 * x) >>> 32).toNat = area.toNat * x.toNat / 2 ^ 32 := by
    rw [UInt64.toNat_shiftRight, UInt64.toNat_mul, UInt32.toNat_toUInt64, Nat.mod_eq_of_lt (by omega), Nat.shiftRight_eq_div_pow]
    rfl
  have inside : area.toNat * x.toNat / 2 ^ 32 < area.toNat := Nat.div_lt_of_lt_mul (by rwa [Nat.mul_comm (2 ^ 32)])
  have relative : ((area - 1).toUInt64 - ((area.toUInt64 * x) >>> 32)).toNat = area.toNat - 1 - area.toNat * x.toNat / 2 ^ 32 := by
    rw [UInt64.toNat_sub_of_le _ _ (UInt64.le_iff_toNat_le.mpr (by rw [taken, UInt32.toNat_toUInt64, less_one area filled]; omega)),
      taken, UInt32.toNat_toUInt64, less_one area filled]
  refine ⟨area.toNat - 1 - area.toNat * x.toNat / 2 ^ 32, by omega, ?_⟩
  have rest := Nat.mod_lt (start.toNat + (area.toNat - 1 - area.toNat * x.toNat / 2 ^ 32)) positive
  rw [UInt64.toNat_toUInt32, UInt64.toNat_mod, UInt64.toNat_add, relative, UInt32.toNat_toUInt64, UInt32.toNat_toUInt64,
    Nat.mod_eq_of_lt (show start.toNat + (area.toNat - 1 - area.toNat * x.toNat / 2 ^ 32) < 2 ^ 64 by omega),
    Nat.mod_eq_of_lt (by omega)]

include even

theorem segments_fit : 4 * inst.segmentLength.toNat < 2 ^ 32 := by
  have lanes := Nat.le_mul_of_pos_left inst.laneLength.toNat even.lanes
  have memory := even.memory
  rw [even.lane] at lanes memory
  omega

include within

theorem reference_area_open (sameLane : Bool) (own : position.pass = 0 → position.slice = 0 → sameLane = true) :
    (referenceAreaSize inst position sameLane).toNat = openBlocks inst position sameLane ∧ 1 ≤ openBlocks inst position sameLane := by
  have fits := segments_fit inst even
  have two := even.segment
  have inside := within.index
  have fewSlices := within.slice
  rw [referenceAreaSize, openBlocks]
  by_cases first : position.pass = 0
  · rw [if_pos first, if_pos first]
    by_cases start : position.slice = 0
    · have begun := within.started first start
      rw [if_pos start, own first start, start, if_pos rfl, less_one _ (by omega)]
      show position.index.toNat - 1 = 0 * inst.segmentLength.toNat + position.index.toNat - 1 ∧ _
      omega
    · have later : position.slice.toNat ≠ 0 := fun zero => start (UInt8.toNat_inj.mp zero)
      have atLeast := Nat.le_mul_of_pos_left inst.segmentLength.toNat (Nat.pos_of_ne_zero later)
      have atMost := slice_length inst position.slice.toNat (by omega)
      have finished := mul_small position.slice.toUInt32 inst.segmentLength (by rw [UInt8.toNat_toUInt32]; omega)
      rw [UInt8.toNat_toUInt32] at finished
      rw [if_neg start, area_after _ _ _ (by omega) (by omega), finished]
      refine ⟨rfl, ?_⟩
      split_ifs <;> omega
  · have finished : (inst.laneLength - inst.segmentLength).toNat = 3 * inst.segmentLength.toNat := by
      rw [UInt32.toNat_sub_of_le _ _ (UInt32.le_iff_toNat_le.mpr (by rw [even.lane]; omega)), even.lane]
      omega
    rw [if_neg first, if_neg first, area_after _ _ _ (by omega) (by omega), finished]
    refine ⟨rfl, ?_⟩
    split_ifs <;> omega

def windowStart (inst : Instance) (position : Position) : Nat :=
  if position.pass = 0 then 0 else if position.slice = 3 then 0 else (position.slice.toNat + 1) * inst.segmentLength.toNat

theorem start_window : (startPosition inst position).toNat = windowStart inst position := by
  have fits := segments_fit inst even
  have fewSlices := within.slice
  rw [startPosition, windowStart]
  by_cases first : position.pass = 0
  · rw [if_neg (not_not.mpr first), if_pos first]
    rfl
  · rw [if_pos first, if_neg first]
    by_cases last : position.slice = 3
    · rw [last]
      rfl
    · have notThree : position.slice.toNat ≠ 3 := fun three => last (UInt8.toNat_inj.mp three)
      have other : position.slice.toUInt32 ≠ syncPoints - 1 := by
        intro three
        have value := congrArg UInt32.toNat three
        rw [UInt8.toNat_toUInt32] at value
        exact notThree value
      have next : (position.slice.toUInt32 + 1).toNat = position.slice.toNat + 1 := by
        rw [add_small _ _ (by rw [UInt8.toNat_toUInt32]; show _ + 1 < _; omega), UInt8.toNat_toUInt32]
        rfl
      have atMost := slice_length inst (position.slice.toNat + 1) (by omega)
      rw [if_neg other, if_neg last, mul_small _ _ (by rw [next]; omega), next]

theorem index_alpha_window (pseudoRand : UInt32) (sameLane : Bool) (own : position.pass = 0 → position.slice = 0 → sameLane = true) :
    ∃ r < openBlocks inst position sameLane,
      (indexAlpha inst position pseudoRand sameLane).toNat = (windowStart inst position + r) % inst.laneLength.toNat := by
  obtain ⟨area, positive⟩ := reference_area_open inst even position within sameLane own
  have two := even.segment
  have square : ((pseudoRand.toUInt64 * pseudoRand.toUInt64) >>> 32).toNat < 2 ^ 32 := by
    rw [UInt64.toNat_shiftRight, Nat.shiftRight_eq_div_pow]
    exact Nat.div_lt_of_lt_mul (UInt64.toNat_lt _)
  obtain ⟨r, inside, place⟩ := area_place (referenceAreaSize inst position sameLane) (startPosition inst position) inst.laneLength
    ((pseudoRand.toUInt64 * pseudoRand.toUInt64) >>> 32) (area ▸ positive) square (by rw [even.lane]; omega)
  rw [start_window inst even position within] at place
  exact ⟨r, area ▸ inside, place⟩

omit even within

theorem shifted_ne (lane place d : Nat) (inside : place < lane) (positive : 0 < d) (less : d < lane) : (place + d) % lane ≠ place := by
  rcases Nat.lt_or_ge (place + d) lane with below | above
  · rw [Nat.mod_eq_of_lt below]
    omega
  · rw [Nat.mod_eq_sub_mod above, Nat.mod_eq_of_lt (by omega)]
    omega

theorem first_pass_place (segment slice index r : Nat) (sameLane : Bool) (inside : index < segment) (few : slice < 4)
    (window : r < if sameLane then slice * segment + index - 1 else if index = 0 then slice * segment - 1 else slice * segment) :
    r + 1 < slice * segment + index ∧ slice * segment + index < 4 * segment ∧ (r / segment ≠ slice ∨ sameLane = true) := by
  have atMost : slice * segment ≤ 3 * segment := Nat.mul_le_mul_right _ (by omega)
  have before : sameLane = true ∨ r < slice * segment := by
    cases sameLane with
    | true => exact .inl rfl
    | false =>
        rw [if_neg (by decide)] at window
        right
        split_ifs at window <;> omega
  refine ⟨by split_ifs at window <;> omega, by omega, ?_⟩
  rcases before with same | earlier
  · exact .inr same
  · exact .inl (Nat.ne_of_lt ((Nat.div_lt_iff_lt_mul (by omega)).mpr earlier))

theorem later_pass_place (segment slice index r : Nat) (sameLane : Bool) (inside : index < segment) (few : slice < 4)
    (window : r < if sameLane then 3 * segment + index - 1 else if index = 0 then 3 * segment - 1 else 3 * segment) :
    let o := ((slice + 1) * segment + r) % (4 * segment)
    o ≠ slice * segment + index ∧ (o + 1) % (4 * segment) ≠ slice * segment + index ∧
      (o / segment ≠ slice ∨ sameLane = true ∧ o < slice * segment + index) := by
  intro o
  have atMost : slice * segment ≤ 3 * segment := Nat.mul_le_mul_right _ (by omega)
  have next : (slice + 1) * segment = slice * segment + segment := Nat.succ_mul slice segment
  have distance : r + 1 < 3 * segment + index := by
    split_ifs at window <;> omega
  have ahead : (slice + 1) * segment + r = slice * segment + index + (segment - index + r) := by omega
  refine ⟨?_, ?_, ?_⟩
  · show ((slice + 1) * segment + r) % (4 * segment) ≠ _
    rw [ahead]
    exact shifted_ne _ _ _ (by omega) (by omega) (by omega)
  · show (((slice + 1) * segment + r) % (4 * segment) + 1) % (4 * segment) ≠ _
    rw [Nat.mod_add_mod, ahead, Nat.add_assoc]
    exact shifted_ne _ _ _ (by omega) (by omega) (by omega)
  · by_cases others : r < 3 * segment
    · left
      have rounds : r / segment < 3 := (Nat.div_lt_iff_lt_mul (by omega)).mpr others
      show ((slice + 1) * segment + r) % (4 * segment) / segment ≠ slice
      rw [Nat.mul_comm 4, Nat.mod_mul_right_div_self, Nat.mul_comm, Nat.mul_add_div (by omega)]
      generalize r / segment = later at rounds
      omega
    · right
      have same : sameLane = true := by
        cases sameLane with
        | true => rfl
        | false =>
            rw [if_neg (by decide)] at window
            split_ifs at window <;> omega
      have round : o = (slice + 1) * segment + r - 4 * segment := by
        show ((slice + 1) * segment + r) % (4 * segment) = _
        rw [Nat.mod_eq_sub_mod (by omega), Nat.mod_eq_of_lt (by omega)]
      exact ⟨same, by omega⟩

include even within

theorem reference_allowed (pseudoRand : UInt32) (sameLane : Bool) (own : position.pass = 0 → position.slice = 0 → sameLane = true) :
    (indexAlpha inst position pseudoRand sameLane).toNat < inst.laneLength.toNat ∧
    (indexAlpha inst position pseudoRand sameLane).toNat ≠ position.offset inst ∧
    ((indexAlpha inst position pseudoRand sameLane).toNat + 1) % inst.laneLength.toNat ≠ position.offset inst ∧
    ((indexAlpha inst position pseudoRand sameLane).toNat / inst.segmentLength.toNat ≠ position.slice.toNat ∨
      sameLane = true ∧ (indexAlpha inst position pseudoRand sameLane).toNat < position.offset inst) ∧
    (position.pass = 0 → (indexAlpha inst position pseudoRand sameLane).toNat < position.offset inst) := by
  obtain ⟨r, window, place⟩ := index_alpha_window inst even position within pseudoRand sameLane own
  have two := even.segment
  have inside := within.index
  have few := within.slice
  have zeroIndex : position.index = 0 ↔ position.index.toNat = 0 := UInt32.toNat_inj.symm
  simp only [openBlocks, zeroIndex] at window
  rw [place, even.lane, Position.offset]
  refine ⟨Nat.mod_lt _ (by omega), ?_⟩
  by_cases first : position.pass = 0
  · rw [if_pos first] at window
    obtain ⟨before, fits, apart⟩ := first_pass_place _ _ _ r sameLane inside few window
    rw [windowStart, if_pos first, Nat.zero_add, Nat.mod_eq_of_lt (by omega), Nat.mod_eq_of_lt (by omega)]
    exact ⟨by omega, by omega, apart.imp_right fun same => ⟨same, by omega⟩, fun _ => by omega⟩
  · rw [if_neg first] at window
    obtain ⟨current, previous, apart⟩ := later_pass_place _ _ _ r sameLane inside few window
    have start : (windowStart inst position + r) % (4 * inst.segmentLength.toNat) =
        ((position.slice.toNat + 1) * inst.segmentLength.toNat + r) % (4 * inst.segmentLength.toNat) := by
      rw [windowStart, if_neg first]
      by_cases last : position.slice = 3
      · rw [if_pos last, last]
        show (0 + r) % _ = (4 * inst.segmentLength.toNat + r) % _
        rw [Nat.zero_add, Nat.add_mod_left]
      · rw [if_neg last]
    rw [start]
    exact ⟨current, previous, apart, fun zero => absurd zero first⟩

end Reference

end Libx.Argon2

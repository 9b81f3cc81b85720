import Libx.Argon2.Threads

set_option autoImplicit false

-- The memory is not cleared when it is allocated.
namespace Libx.Argon2

def Overwrites (fillBlock : Block → Block → Block → Bool → Block) : Prop :=
  ∀ state ref next next', fillBlock state ref next false = fillBlock state ref next' false

section Agreement

variable (fillBlock : Block → Block → Block → Bool → Block)
  (inst : Instance) (even : inst.Even)

def Agree (inst : Instance) (filled : Nat → Nat) (memory memory' : Memory) : Prop :=
  ∀ a, laneOf inst a < inst.lanes.toNat → a % inst.laneLength.toNat < filled (laneOf inst a) → memory a = memory' a

theorem agree_update (filled filled' : Nat → Nat) (memory memory' : Memory) (a : Nat) (block : Block)
    (agree : Agree inst filled memory memory')
    (grown : ∀ x, x % inst.laneLength.toNat < filled' (laneOf inst x) → x = a ∨ x % inst.laneLength.toNat < filled (laneOf inst x)) :
    Agree inst filled' (Function.update memory a block) (Function.update memory' a block) := by
  intro x known inside
  by_cases here : x = a
  · rw [here, Function.update_self, Function.update_self]
  · rw [Function.update_of_ne here, Function.update_of_ne here]
    exact agree x known ((grown x inside).resolve_left here)

variable (pass slice : Nat) (lane : Fin inst.lanes.toNat) (few : slice < 4)
structure Covered (segment : Segment) (filled : Nat → Nat) : Prop where
  previous : ∀ o, (o + 1) % inst.laneLength.toNat = segment.offset inst slice → o < inst.laneLength.toNat → o < filled lane
  reference : ∀ a, segment.Refers inst pass slice lane a → a % inst.laneLength.toNat < filled (laneOf inst a)
  current : Overwrites fillBlock ∧ UInt32.ofNat pass = 0 ∨ segment.offset inst slice < filled lane

include even few

theorem turn_agrees (segment : Segment) (steady : segment.Steady inst pass slice lane) (more : segment.i.toNat < inst.segmentLength.toNat)
    (filled : Nat → Nat) (memory memory' : Memory) (agree : Agree inst filled memory memory')
    (covered : Covered fillBlock inst pass slice lane segment filled) :
    ∃ after block, segment.turn fillBlock inst (place pass slice lane) memory =
        (after, Function.update memory segment.currOffset.toNat block) ∧
      segment.turn fillBlock inst (place pass slice lane) memory' =
        (after, Function.update memory' segment.currOffset.toNat block) := by
  obtain ⟨o, inside, prev, next⟩ := previous_place inst pass slice lane even few segment steady more
  have refers := reference_place fillBlock inst pass slice lane even few segment steady more memory
  obtain ⟨prevLane, prevPlace⟩ := lane_place inst even lane o inside
  rw [← prev] at prevLane prevPlace
  obtain ⟨here, _⟩ := slice_place inst even slice segment.i.toNat few more
  obtain ⟨currLane, currPlace⟩ := lane_place inst even lane (segment.offset inst slice) here
  rw [← steady.curr] at currLane currPlace
  refine turn_reads fillBlock inst _ segment memory memory' ?_ ?_ ?_
  · exact agree _ (prevLane ▸ lane.isLt) (by rw [prevPlace, prevLane]; exact covered.previous o next inside)
  · exact agree _ refers.known (covered.reference _ refers)
  · intro ref
    rcases covered.current with ⟨overwrites, first⟩ | known
    · have plain : (!(decide (inst.version = version10 ∨ (place pass slice lane).pass = 0))) = false := by
        rw [decide_eq_true (.inr first)]
        rfl
      rw [plain]
      exact overwrites _ _ _ _
    · rw [agree _ (currLane ▸ lane.isLt) (by rw [currPlace, currLane]; exact known)]

theorem segment_agrees (filled : Nat → Nat → Nat)
    (covered : ∀ segment, segment.Steady inst pass slice lane → segment.i.toNat < inst.segmentLength.toNat →
      Covered fillBlock inst pass slice lane segment (filled (segment.offset inst slice)))
    (grown : ∀ offset l k, k < filled (offset + 1) l → l = lane ∧ k = offset ∨ k < filled offset l)
    (memory memory' : Memory)
    (start : segmentStart fillBlock inst (place pass slice lane) memory = segmentStart fillBlock inst (place pass slice lane) memory')
    (agree : Agree inst (filled (slice * inst.segmentLength.toNat + (startingIndex (place pass slice lane)).toNat)) memory memory') :
    Agree inst (filled (slice * inst.segmentLength.toNat + inst.segmentLength.toNat))
      (fillSegment fillBlock inst (place pass slice lane) memory) (fillSegment fillBlock inst (place pass slice lane) memory') := by
  have loop (n : Nat) : ∃ segment, segment.Steady inst pass slice lane ∧ ∃ now now', Agree inst (filled (segment.offset inst slice)) now now' ∧
      (Segment.next fillBlock inst (place pass slice lane))^[n] (segmentStart fillBlock inst (place pass slice lane) memory, memory) =
        (segment, now) ∧
      (Segment.next fillBlock inst (place pass slice lane))^[n] (segmentStart fillBlock inst (place pass slice lane) memory', memory') =
        (segment, now') := by
    induction n with
    | zero =>
        exact ⟨_, start_steady fillBlock inst pass slice lane even few memory, memory, memory', agree, rfl, by rw [start]; rfl⟩
    | succ n ih =>
        obtain ⟨segment, steady, now, now', agree, reached, reached'⟩ := ih
        rw [Function.iterate_succ_apply', Function.iterate_succ_apply', reached, reached', Segment.next, Segment.next]
        by_cases more : segment.i < inst.segmentLength
        · have below := UInt32.lt_iff_toNat_lt.mp more
          obtain ⟨after, block, here, here'⟩ := turn_agrees fillBlock inst even pass slice lane few segment steady below _ now now' agree
            (covered segment steady below)
          have next := turn_steady fillBlock inst pass slice lane even few segment steady below now
          have offset := turn_offset fillBlock inst pass slice lane segment below now
          rw [here] at next offset
          rw [if_pos more, if_pos more, here, here']
          refine ⟨after, next, _, _, ?_, rfl, rfl⟩
          rw [offset]
          refine agree_update inst _ _ now now' _ block agree fun x inside => ?_
          rcases grown _ _ _ inside with ⟨own, current⟩ | before
          · left
            rw [steady.curr, ← own, ← current, Nat.mul_comm]
            exact (Nat.div_add_mod x inst.laneLength.toNat).symm
          · exact .inr before
        · rw [if_neg more, if_neg more]
          exact ⟨segment, steady, now, now', agree, rfl, rfl⟩
  obtain ⟨segment, steady, now, now', agree, reached, reached'⟩ := loop inst.segmentLength.toNat
  have counted := turns_counted fillBlock inst (place pass slice lane)
    (segmentStart fillBlock inst (place pass slice lane) memory, memory) inst.segmentLength.toNat
  rw [reached, or_self] at counted
  have whole : segment.offset inst slice = slice * inst.segmentLength.toNat + inst.segmentLength.toNat := by
    rw [Segment.offset, Nat.le_antisymm steady.i counted]
  rw [fillSegment, fillSegment, reached, reached', ← whole]
  exact agree

theorem start_agrees (filled : Nat → Nat) (memory memory' : Memory) (agree : Agree inst filled memory memory')
    (previous : ∀ o, (o + 1) % inst.laneLength.toNat = slice * inst.segmentLength.toNat + (startingIndex (place pass slice lane)).toNat →
      o < inst.laneLength.toNat → o < filled lane) :
    segmentStart fillBlock inst (place pass slice lane) memory = segmentStart fillBlock inst (place pass slice lane) memory' := by
  obtain ⟨o, inside, prev, next⟩ := start_previous fillBlock inst pass slice lane even few memory
  obtain ⟨own, rest⟩ := lane_place inst even lane o inside
  rw [← prev] at own rest
  apply start_same
  exact agree _ (by rw [own]; exact lane.isLt) (by rw [rest, own]; exact previous o next inside)

theorem full_segment_agrees (memory memory' : Memory) (agree : Agree inst (fun _ => inst.laneLength.toNat) memory memory') :
    Agree inst (fun _ => inst.laneLength.toNat) (fillSegment fillBlock inst (place pass slice lane) memory)
      (fillSegment fillBlock inst (place pass slice lane) memory') := by
  refine segment_agrees fillBlock inst even pass slice lane few (fun _ _ => inst.laneLength.toNat) (fun segment steady more => ?_)
    (fun _ _ _ inside => .inr inside) memory memory' ?_ agree
  · exact {
      previous := fun o _ inside => inside
      reference := fun a _ => Nat.mod_lt a (lane_positive inst even)
      current := .inr (slice_place inst even slice segment.i.toNat few more).1 }
  · exact start_agrees fillBlock inst even pass slice lane few _ memory memory' agree fun o _ inside => inside

omit few

def baseOf (inst : Instance) (slice : Nat) : Nat := slice * inst.segmentLength.toNat + if slice = 0 then 2 else 0

def firstFilled (inst : Instance) (slice current offset l : Nat) : Nat :=
  if l < current then slice * inst.segmentLength.toNat + inst.segmentLength.toNat else if l = current then offset else baseOf inst slice

omit even in
theorem first_start (few : slice < 4) : (startingIndex (place 0 slice lane)).toNat = if slice = 0 then 2 else 0 := by
  by_cases start : slice = 0
  · rw [start]
    rfl
  · rw [if_neg start]
    rcases starting_cases inst 0 slice lane few with none | ⟨_, zero⟩
    · exact none
    · exact absurd zero start

include few

theorem first_segment_agrees (overwrites : Overwrites fillBlock) (memory memory' : Memory)
    (agree : Agree inst (firstFilled inst slice lane (baseOf inst slice)) memory memory') :
    Agree inst (firstFilled inst slice lane (slice * inst.segmentLength.toNat + inst.segmentLength.toNat))
      (fillSegment fillBlock inst (place 0 slice lane) memory) (fillSegment fillBlock inst (place 0 slice lane) memory') := by
  have two := even.segment
  have base : slice * inst.segmentLength.toNat + (startingIndex (place 0 slice lane)).toNat = baseOf inst slice := by
    rw [first_start inst slice lane few, baseOf]
  have own (offset : Nat) : firstFilled inst slice lane offset lane = offset := by
    rw [firstFilled, if_neg (Nat.lt_irrefl _), if_pos rfl]
  have finished (offset l : Nat) (other : l ≠ lane) : slice * inst.segmentLength.toNat ≤ firstFilled inst slice lane offset l := by
    rw [firstFilled, if_neg other (c := l = lane)]
    split_ifs
    · exact Nat.le_add_right _ _
    · exact Nat.le_add_right _ _
  have atLeast : 2 ≤ baseOf inst slice := by
    rw [baseOf]
    split_ifs with zero
    · exact Nat.le_add_left _ _
    · have segments := Nat.le_mul_of_pos_left inst.segmentLength.toNat (Nat.pos_of_ne_zero zero)
      omega
  have before (offset o : Nat) (some_ : 2 ≤ offset) (next : (o + 1) % inst.laneLength.toNat = offset) (inside : o < inst.laneLength.toNat) :
      o < offset := by
    rcases Nat.lt_or_ge (o + 1) inst.laneLength.toNat with short | whole
    · rw [Nat.mod_eq_of_lt short] at next
      omega
    · rw [show o + 1 = inst.laneLength.toNat by omega, Nat.mod_self] at next
      omega
  refine segment_agrees fillBlock inst even 0 slice lane few (firstFilled inst slice lane) (fun segment steady more => ?_) ?_
    memory memory' ?_ (base ▸ agree)
  · have some_ : 2 ≤ segment.offset inst slice := by
      have started := steady.started
      rw [Segment.offset]
      omega
    exact {
      previous := fun o next inside => by
        rw [own]
        exact before _ o some_ next inside
      reference := fun a refers => by
        have earlier := refers.filled rfl
        by_cases same : laneOf inst a = lane
        · rw [same, own]
          exact earlier
        · have other : a % inst.laneLength.toNat / inst.segmentLength.toNat ≠ slice :=
            refers.finished.resolve_right fun here => same here.1
          have below : ¬ slice * inst.segmentLength.toNat ≤ a % inst.laneLength.toNat := by
            intro above
            rw [Segment.offset] at earlier
            exact other (Nat.div_eq_of_lt_le above (by rw [Nat.add_one_mul]; omega))
          have least := finished (segment.offset inst slice) (laneOf inst a) same
          omega
      current := .inl ⟨overwrites, rfl⟩ }
  · intro offset l k inside
    by_cases same : l = lane
    · rw [same, own] at inside ⊢
      rcases Nat.lt_succ_iff_lt_or_eq.mp inside with earlier | here
      · exact .inr earlier
      · exact .inl ⟨rfl, here⟩
    · right
      rw [firstFilled, if_neg same] at inside ⊢
      exact inside
  · refine start_agrees fillBlock inst even 0 slice lane few _ memory memory' agree fun o next inside => ?_
    rw [own, ← base]
    exact before _ o (base ▸ atLeast) next inside

omit few

theorem first_slice_agrees (few : slice < 4) (overwrites : Overwrites fillBlock) (memory memory' : Memory)
    (agree : Agree inst (fun _ => baseOf inst slice) memory memory') :
    Agree inst (fun _ => slice * inst.segmentLength.toNat + inst.segmentLength.toNat) (fillSlice fillBlock inst memory (0, slice))
      (fillSlice fillBlock inst memory' (0, slice)) := by
  have lanes (n : Nat) (known : n ≤ inst.lanes.toNat) : Agree inst (firstFilled inst slice n (baseOf inst slice))
      ((List.range n).foldl (fun memory lane => fillSegment fillBlock inst (place 0 slice lane) memory) memory)
      ((List.range n).foldl (fun memory lane => fillSegment fillBlock inst (place 0 slice lane) memory) memory') := by
    induction n with
    | zero =>
        intro a inside here
        refine agree a inside ?_
        rw [firstFilled, if_neg (Nat.not_lt_zero _), ite_self] at here
        exact here
    | succ n ih =>
        have filled := first_segment_agrees fillBlock inst even slice ⟨n, known⟩ few overwrites _ _ (ih (Nat.le_of_succ_le known))
        rw [List.range_succ, List.foldl_append, List.foldl_append]
        intro a inside here
        refine filled a inside ?_
        show a % inst.laneLength.toNat < firstFilled inst slice n (slice * inst.segmentLength.toNat + inst.segmentLength.toNat) (laneOf inst a)
        rw [firstFilled] at here ⊢
        split_ifs at here ⊢ <;> omega
  intro a inside here
  refine lanes inst.lanes.toNat le_rfl a inside ?_
  rw [firstFilled, if_pos inside]
  exact here

theorem full_slice_agrees (at_ : Nat × Nat) (few : at_.2 < 4) (memory memory' : Memory)
    (agree : Agree inst (fun _ => inst.laneLength.toNat) memory memory') :
    Agree inst (fun _ => inst.laneLength.toNat) (fillSlice fillBlock inst memory at_) (fillSlice fillBlock inst memory' at_) := by
  have lanes (todo : List Nat) (known : ∀ lane ∈ todo, lane < inst.lanes.toNat) (memory memory' : Memory)
      (agree : Agree inst (fun _ => inst.laneLength.toNat) memory memory') : Agree inst (fun _ => inst.laneLength.toNat)
        (todo.foldl (fun memory lane => fillSegment fillBlock inst (place at_.1 at_.2 lane) memory) memory)
        (todo.foldl (fun memory lane => fillSegment fillBlock inst (place at_.1 at_.2 lane) memory) memory') := by
    induction todo generalizing memory memory' with
    | nil => exact agree
    | cons lane todo ih =>
        exact ih (fun other member => known other (List.mem_cons_of_mem lane member)) _ _
          (full_segment_agrees fillBlock inst even at_.1 at_.2 ⟨lane, known lane List.mem_cons_self⟩ few memory memory' agree)
  exact lanes _ (fun lane member => List.mem_range.mp member) memory memory' agree

theorem full_slices_agree (todo : List (Nat × Nat)) (few : ∀ at_ ∈ todo, at_.2 < 4) (memory memory' : Memory)
    (agree : Agree inst (fun _ => inst.laneLength.toNat) memory memory') :
    Agree inst (fun _ => inst.laneLength.toNat) (todo.foldl (fillSlice fillBlock inst) memory) (todo.foldl (fillSlice fillBlock inst) memory') := by
  induction todo generalizing memory memory' with
  | nil => exact agree
  | cons at_ todo ih =>
      exact ih (fun other member => few other (List.mem_cons_of_mem at_ member)) _ _
        (full_slice_agrees fillBlock inst even at_ (few at_ List.mem_cons_self) memory memory' agree)

theorem first_pass_agrees (overwrites : Overwrites fillBlock) (memory memory' : Memory) (agree : Agree inst (fun _ => 2) memory memory') :
    Agree inst (fun _ => inst.laneLength.toNat) ([(0, 0), (0, 1), (0, 2), (0, 3)].foldl (fillSlice fillBlock inst) memory)
      ([(0, 0), (0, 1), (0, 2), (0, 3)].foldl (fillSlice fillBlock inst) memory') := by
  have next (slice : Nat) : slice * inst.segmentLength.toNat + inst.segmentLength.toNat = baseOf inst (slice + 1) := by
    rw [baseOf, if_neg (Nat.succ_ne_zero slice), Nat.add_one_mul, Nat.add_zero]
  have zero : baseOf inst 0 = 2 := by
    rw [baseOf, Nat.zero_mul]
    rfl
  have first := first_slice_agrees fillBlock inst even 0 (by decide) overwrites memory memory' (by rw [zero]; exact agree)
  rw [next] at first
  have second := first_slice_agrees fillBlock inst even 1 (by decide) overwrites _ _ first
  rw [next] at second
  have third := first_slice_agrees fillBlock inst even 2 (by decide) overwrites _ _ second
  rw [next] at third
  have fourth := first_slice_agrees fillBlock inst even 3 (by decide) overwrites _ _ third
  rwa [← Nat.add_one_mul, show (3 + 1) * inst.segmentLength.toNat = inst.laneLength.toNat from even.lane.symm] at fourth

theorem filled_agrees (overwrites : Overwrites fillBlock) (passes : 1 ≤ inst.passes.toNat) (memory memory' : Memory)
    (agree : Agree inst (fun _ => 2) memory memory') :
    Agree inst (fun _ => inst.laneLength.toNat) (fillMemoryBlocksSt fillBlock inst memory) (fillMemoryBlocksSt fillBlock inst memory') := by
  obtain ⟨more, count⟩ := Nat.exists_eq_add_of_le passes
  obtain ⟨rest, split⟩ : ∃ rest, slices inst = [(0, 0), (0, 1), (0, 2), (0, 3)] ++ rest := by
    have front : List.range (more + 1) = 0 :: (List.range more).map Nat.succ := List.range_succ_eq_map
    rw [slices, count, Nat.add_comm, front, List.flatMap_cons]
    exact ⟨_, rfl⟩
  have few : ∀ at_ ∈ rest, at_.2 < 4 := fun at_ member => slices_few inst at_ (by rw [split]; exact List.mem_append_right _ member)
  rw [fillMemoryBlocksSt, fillMemoryBlocksSt, split, List.foldl_append, List.foldl_append]
  exact full_slices_agree fillBlock inst even rest few _ _ (first_pass_agrees fillBlock inst even overwrites memory memory' agree)

theorem garbage_unread (overwrites : Overwrites fillBlock) (passes : 1 ≤ inst.passes.toNat)
    (schedule schedule' : Nat × Nat → List (Fin inst.lanes.toNat)) (memory memory' filled filled' : Memory)
    (agree : Agree inst (fun _ => 2) memory memory') (threads : fillMemoryBlocksMt fillBlock inst schedule memory = some filled)
    (threads' : fillMemoryBlocksMt fillBlock inst schedule' memory' = some filled') :
    ∀ a, a < inst.lanes.toNat * inst.laneLength.toNat → filled a = filled' a := by
  intro a known
  obtain rfl := threads_as_one fillBlock inst even schedule memory filled threads
  obtain rfl := threads_as_one fillBlock inst even schedule' memory' filled' threads'
  have positive := lane_positive inst even
  exact filled_agrees fillBlock inst even overwrites passes memory memory' agree a ((Nat.div_lt_iff_lt_mul positive).mpr known)
    (Nat.mod_lt a positive)

end Agreement

theorem ref_overwrites : Overwrites fillBlockRef := fun _ _ _ _ => rfl

theorem garbage_unread_sample :
    fillMemoryBlocksSt fillBlockRef sampleInstance (fun _ => initBlockValue) 15 =
      fillMemoryBlocksSt fillBlockRef sampleInstance
        (fun a => if a % 8 < 2 then initBlockValue else Vector.replicate 128 7) 15 := by
  have finished (memory : Memory) := threads_finish fillBlockRef sampleInstance sample_even
    (fun _ => [secondLane, firstLane, firstLane, secondLane, firstLane, secondLane]) memory fun _ _ =>
      show ∀ lane : Fin 2, 2 < ([1, 0, 0, 1, 0, 1] : List (Fin 2)).count lane by decide
  obtain ⟨filled, run⟩ := finished fun _ => initBlockValue
  obtain ⟨filled', run'⟩ := finished fun a => if a % 8 < 2 then initBlockValue else Vector.replicate 128 7
  have same := garbage_unread _ sampleInstance sample_even ref_overwrites (by decide) _ _ _ _ filled filled'
    (fun a _ inside => (if_pos inside).symm) run run' 15 (by decide)
  rwa [threads_as_one _ sampleInstance sample_even _ _ filled run, threads_as_one _ sampleInstance sample_even _ _ filled' run'] at same

end Libx.Argon2

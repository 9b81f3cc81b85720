import Libx.Argon2.Reference
import Libx.Lib.Workers
import Mathlib.Data.List.FinRange

set_option autoImplicit false

namespace Libx.Argon2

open Workers

abbrev Block := Vector UInt64 128
abbrev Memory := Nat → Block

def initBlockValue : Block := Vector.replicate 128 0

def xorBlock (dst src : Block) : Block := Vector.zipWith (· ^^^ ·) dst src

section FillBlock

def rotr64 (w c : UInt64) : UInt64 := (w >>> c) ||| (w <<< (64 - c))

def fBlaMka (x y : UInt64) : UInt64 := x + y + 2 * ((x &&& 0xFFFFFFFF) * (y &&& 0xFFFFFFFF))

def mixBlaMka (v : Block) (a b c d : Fin 128) : Block :=
  let va := fBlaMka v[a] v[b]
  let vd := rotr64 (v[d] ^^^ va) 32
  let vc := fBlaMka v[c] vd
  let vb := rotr64 (v[b] ^^^ vc) 24
  let va := fBlaMka va vb
  let vd := rotr64 (vd ^^^ va) 16
  let vc := fBlaMka vc vd
  let vb := rotr64 (vb ^^^ vc) 63
  (((v.set a va).set b vb).set c vc).set d vd

def blake2RoundNomsg (v : Block) (w : Fin 16 → Fin 128) : Block :=
  let v := mixBlaMka v (w 0) (w 4) (w 8) (w 12)
  let v := mixBlaMka v (w 1) (w 5) (w 9) (w 13)
  let v := mixBlaMka v (w 2) (w 6) (w 10) (w 14)
  let v := mixBlaMka v (w 3) (w 7) (w 11) (w 15)
  let v := mixBlaMka v (w 0) (w 5) (w 10) (w 15)
  let v := mixBlaMka v (w 1) (w 6) (w 11) (w 12)
  let v := mixBlaMka v (w 2) (w 7) (w 8) (w 13)
  mixBlaMka v (w 3) (w 4) (w 9) (w 14)

-- The reference version, without vector instructions.
def fillBlockRef (prevBlock refBlock nextBlock : Block) (withXor : Bool) : Block :=
  let blockR := xorBlock refBlock prevBlock
  let blockTmp := if withXor then xorBlock blockR nextBlock else blockR
  let blockR := (List.finRange 8).foldl (fun v i => blake2RoundNomsg v fun k => .ofNat 128 (16 * i.val + k.val)) blockR
  let blockR := (List.finRange 8).foldl
    (fun v i => blake2RoundNomsg v fun k => .ofNat 128 (2 * i.val + 16 * (k.val / 2) + k.val % 2)) blockR
  xorBlock blockTmp blockR

end FillBlock

-- The compression of one block: the previous block, the reference block and the
-- one that is overwritten, which is mixed in only when asked.
variable (fillBlock : Block → Block → Block → Bool → Block)

structure Segment where
  i : UInt32
  currOffset : UInt32
  prevOffset : UInt32
  state : Block
  addressBlock : Block
  inputBlock : Block

def nextAddresses (addressBlock inputBlock : Block) : Block × Block :=
  let inputBlock := inputBlock.set 6 (inputBlock[6] + 1)
  let addressBlock := fillBlock initBlockValue inputBlock addressBlock false
  (fillBlock initBlockValue addressBlock addressBlock false, inputBlock)

def dataIndependentAddressing (inst : Instance) (position : Position) : Bool :=
  inst.type = .i ∨ inst.type = .id ∧ position.pass = 0 ∧ position.slice < 2

def Argon2Type.number : Argon2Type → UInt64
  | .d => 0
  | .i => 1
  | .id => 2

def inputBlock (inst : Instance) (position : Position) : Block :=
  (((((initBlockValue.set 0 position.pass.toUInt64).set 1 position.lane.toUInt64).set 2 position.slice.toUInt64).set 3
    inst.memoryBlocks.toUInt64).set 4 inst.passes.toUInt64).set 5 inst.type.number

def startingIndex (position : Position) : UInt32 := if position.pass = 0 ∧ position.slice = 0 then 2 else 0

-- What comes before the loop. The blocks of addresses are not read when the
-- addressing depends on the data.
def segmentStart (inst : Instance) (position : Position) (memory : Memory) : Segment :=
  let blocks :=
    if dataIndependentAddressing inst position ∧ position.pass = 0 ∧ position.slice = 0 then
      nextAddresses fillBlock initBlockValue (inputBlock inst position)
    else (initBlockValue, inputBlock inst position)
  let currOffset := position.lane * inst.laneLength + position.slice.toUInt32 * inst.segmentLength + startingIndex position
  let prevOffset := if currOffset % inst.laneLength = 0 then currOffset + inst.laneLength - 1 else currOffset - 1
  ⟨startingIndex position, currOffset, prevOffset, memory prevOffset.toNat, blocks.1, blocks.2⟩

def Segment.previous (inst : Instance) (segment : Segment) : UInt32 :=
  if segment.currOffset % inst.laneLength = 1 then segment.currOffset - 1 else segment.prevOffset

def Segment.addresses (inst : Instance) (position : Position) (segment : Segment) : Block × Block :=
  if dataIndependentAddressing inst position ∧ segment.i % 128 = 0 then nextAddresses fillBlock segment.addressBlock segment.inputBlock
  else (segment.addressBlock, segment.inputBlock)

def Segment.pseudoRand (inst : Instance) (position : Position) (segment : Segment) (memory : Memory) : UInt64 :=
  if dataIndependentAddressing inst position then (segment.addresses fillBlock inst position).1[segment.i.toNat % 128]
  else (memory (segment.previous inst).toNat)[0]

def Segment.refLane (inst : Instance) (position : Position) (segment : Segment) (memory : Memory) : UInt64 :=
  if position.pass = 0 ∧ position.slice = 0 then position.lane.toUInt64
  else (segment.pseudoRand fillBlock inst position memory >>> 32) % inst.lanes.toUInt64

def Segment.refIndex (inst : Instance) (position : Position) (segment : Segment) (memory : Memory) : UInt32 :=
  indexAlpha inst { position with index := segment.i } (segment.pseudoRand fillBlock inst position memory &&& 0xFFFFFFFF).toUInt32
    (segment.refLane fillBlock inst position memory = position.lane.toUInt64)

def Segment.refPlace (inst : Instance) (position : Position) (segment : Segment) (memory : Memory) : Nat :=
  (inst.laneLength.toUInt64 * segment.refLane fillBlock inst position memory +
    (segment.refIndex fillBlock inst position memory).toUInt64).toNat

-- One turn of the loop. The new block is also the state of the next turn.
def Segment.turn (inst : Instance) (position : Position) (segment : Segment) (memory : Memory) : Segment × Memory :=
  let blocks := segment.addresses fillBlock inst position
  let currBlock := fillBlock segment.state (memory (segment.refPlace fillBlock inst position memory)) (memory segment.currOffset.toNat)
    (!(inst.version = version10 ∨ position.pass = 0))
  (⟨segment.i + 1, segment.currOffset + 1, segment.previous inst + 1, currBlock, blocks.1, blocks.2⟩,
    Function.update memory segment.currOffset.toNat currBlock)

def Segment.next (inst : Instance) (position : Position) (state : Segment × Memory) : Segment × Memory :=
  if state.1.i < inst.segmentLength then state.1.turn fillBlock inst position state.2 else state

-- The loop makes at most as many turns as the segment has blocks.
def fillSegment (inst : Instance) (position : Position) (memory : Memory) : Memory :=
  ((Segment.next fillBlock inst position)^[inst.segmentLength.toNat] (segmentStart fillBlock inst position memory, memory)).2

def place (pass : Nat) (slice : Nat) (lane : Nat) : Position := ⟨.ofNat pass, .ofNat lane, .ofNat slice, 0⟩

def fillSlice (inst : Instance) (memory : Memory) (at_ : Nat × Nat) : Memory :=
  (List.range inst.lanes.toNat).foldl (fun memory lane => fillSegment fillBlock inst (place at_.1 at_.2 lane) memory) memory

def slices (inst : Instance) : List (Nat × Nat) :=
  (List.range inst.passes.toNat).flatMap fun pass => (List.range 4).map fun slice => (pass, slice)

def fillMemoryBlocksSt (inst : Instance) (memory : Memory) : Memory := (slices inst).foldl (fillSlice fillBlock inst) memory

-- A thread: nothing before its first turn, in which it makes ready for the loop.
def threadTurn (inst : Instance) (at_ : Nat × Nat) (lane : Fin inst.lanes.toNat) (thread : Option Segment) (memory : Memory) :
    Option Segment × Memory :=
  match thread with
  | none => (some (segmentStart fillBlock inst (place at_.1 at_.2 lane) memory), memory)
  | some segment =>
      let done := Segment.next fillBlock inst (place at_.1 at_.2 lane) (segment, memory)
      (some done.1, done.2)

def Joined (inst : Instance) (thread : Option Segment) : Prop := ∃ segment, thread = some segment ∧ ¬ segment.i < inst.segmentLength

instance (inst : Instance) (thread : Option Segment) : Decidable (Joined inst thread) :=
  match thread with
  | none => isFalse nofun
  | some segment => decidable_of_iff (¬ segment.i < inst.segmentLength) ⟨fun done => ⟨segment, rfl, done⟩, fun ⟨_, same, done⟩ => by
      obtain rfl := Option.some.inj same
      exact done⟩

-- The threads of one slice in the order in which they come to their turns. None
-- where some thread is still to be joined. How many threads there may be at a
-- time only leaves out some of the orders.
def fillSliceThreads (inst : Instance) (schedule : List (Fin inst.lanes.toNat)) (memory : Memory) (at_ : Nat × Nat) : Option Memory :=
  let world := run (threadTurn fillBlock inst at_) schedule ⟨fun _ => none, memory⟩
  if ∀ lane, Joined inst (world.locals lane) then some world.memory else none

def fillMemoryBlocksMt (inst : Instance) (schedule : Nat × Nat → List (Fin inst.lanes.toNat)) (memory : Memory) : Option Memory :=
  (slices inst).foldlM (fun memory at_ => fillSliceThreads fillBlock inst (schedule at_) memory at_) memory

end Libx.Argon2

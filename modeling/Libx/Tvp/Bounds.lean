import Libx.Tvp.Reader

set_option autoImplicit false

-- set and getPair by the places they read: a byte of the buffer and a slot of
-- the cache only where there is one.
namespace Libx.Tvp.Checked

def byteAt (buf : Bytes) (offset : Int) : Except Fault UInt8 :=
  match buf[offset.toNat]? with
  | some c => if 0 ≤ offset then .ok c else .error .outOfBuffer
  | none => .error .outOfBuffer

-- The place position - 1 of the array; for position 0 it is the one before the first.
def slotAt (cache : List Where) (position : Nat) : Except Fault Nat :=
  if 0 < position ∧ position ≤ cache.length then .ok (position - 1) else .error .noSlot

-- memcmp(buf + place, mark, mark size) == 0.
def memcmp (buf mark : Bytes) (place : Int) : Except Fault Bool :=
  match mark with
  | [] => .ok true
  | c :: mark => do
      let here ← byteAt buf place
      let rest ← memcmp buf mark (place + 1)
      return here = c ∧ rest

def set (buf : Bytes) : Except Fault Nat :=
  if 0 < buf.length then do
    let checksum ← memcmp buf [1, 49, 48, 61] (buf.length - 8)
    return if checksum then buf.length - 7 else buf.length
  else return buf.length

def findEqual (buf : Bytes) : Nat → Nat → Nat → Except Fault (Option Nat × Nat × Nat)
  | 0, current, check => return (none, current, check)
  | left + 1, current, check => do
      let c ← byteAt buf current
      if c = 61 then return (some current, current + 1, check)
      else findEqual buf left (current + 1) (check * numeric.mapTag2Index (charInt c) % 2 ^ 64)

def findSep (buf : Bytes) (sep : UInt8) : Nat → Nat → Except Fault (Option Nat × Nat)
  | 0, current => return (none, current)
  | left + 1, current => do
      let c ← byteAt buf current
      if c = sep then return (some current, current + 1)
      else findSep buf sep left (current + 1)

section Reader

-- What stands in memory behind the rows of the table ints.
variable (beyond : Nat → Int → Int)

def longs (row : Nat) (column : Int) : Int :=
  match ints row column with
  | .ok value => value
  | .error _ => beyond row column

def fatoi (buf : Bytes) : Nat → Nat → Int → Except Fault Int
  | 0, _, rtn => return rtn
  | left + 1, ptr, rtn => do
      let c ← byteAt buf ptr
      fatoi buf left (ptr + 1) (rtn + longs beyond left (charInt c - 48))

def tagAt (buf : Bytes) (check len ptr : Nat) : Except Fault Int :=
  if check ≠ 0 then (fatoi beyond buf len ptr 0).map int else .ok 0

-- The part of step behind the '='.
def stepValue (buf : Bytes) (sep : UInt8) (start stop equal current check : Nat) :
    Except Fault (Except ParseError (TVPair × Nat)) := do
  let tag ← tagAt beyond buf check (equal - start) start
  let (separator, current) ← findSep buf sep (stop - current) current
  match separator with
  | none => return .error .unterminated
  | some separator =>
      if separator = equal + 1 then return .error .emptyTag
      else return .ok (⟨tag, equal + 1, separator - (equal + 1)⟩, current)

def step (buf : Bytes) (sep : UInt8) (start stop : Nat) : Except Fault (Except ParseError (TVPair × Nat)) := do
  let (equal, current, check) ← findEqual buf (stop - start) start 1
  match equal with
  | none => return .error .equalMissing
  | some equal => stepValue beyond buf sep start stop equal current check

variable (clipper : IntClipper) (sep : UInt8)

def record (cache : List Where) (p : TVPair) : Except Fault (List Where) :=
  let position := clipper.mapTag2Index p.tag
  if position ≠ 0 then (slotAt cache position).map fun slot => cache.set slot ⟨.ofNat p.content, .ofNat p.len⟩
  else return cache

def scan : Nat → Lookup → Except Fault (Bool × Lookup)
  | 0, _ => .error .fuel
  | fuel + 1, lookup =>
      if lookup.lastLookupPosition < lookup.originalSize then do
        match ← step beyond lookup.content sep lookup.lastLookupPosition lookup.originalSize with
        | .error _ => return (true, lookup)
        | .ok (p, current) =>
            let cache ← record clipper lookup.alreadySeenTagsCache p
            scan fuel { lookup with lastLookupPosition := current, alreadySeenTagsCache := cache }
      else return (false, lookup)

def getPair (tag : Int) (lookup : Lookup) : Except Fault (Option StringRef × Lookup) := do
  let loc ← slotAt lookup.alreadySeenTagsCache (clipper.mapTag2Index tag)
  let (thrown, lookup) ← scan beyond clipper sep (lookup.originalSize + 1) lookup
  if thrown then return (none, lookup) else return found loc lookup

def getPairs : List Int → Lookup → Except Fault (List (Option StringRef))
  | [], _ => return []
  | tag :: tags, lookup => do
      let (ref, lookup) ← getPair beyond clipper sep tag lookup
      let refs ← getPairs tags lookup
      return ref :: refs

def session (buf : Bytes) (tags : List Int) : Except Fault (List (Option StringRef)) := do
  let size ← set buf
  getPairs beyond clipper sep tags ⟨buf, size, noWheres clipper, 0⟩

end Reader

theorem byte_here (buf : Bytes) (place : Nat) (c : UInt8) (rest : Bytes) (here : buf.drop place = c :: rest) :
    byteAt buf place = .ok c := by
  have found : buf[place]? = some c := by
    rw [← List.head?_drop, here]
    rfl
  simp [byteAt, found]

theorem drop_next (buf : Bytes) (place : Nat) (c : UInt8) (rest : Bytes) (here : buf.drop place = c :: rest) :
    buf.drop (place + 1) = rest := by
  rw [← List.drop_drop, here]
  rfl

theorem memcmp_inside (buf mark front back : Bytes) (place : Nat) (here : buf.drop place = front ++ back)
    (size : front.length = mark.length) : memcmp buf mark place = .ok (decide (front = mark)) := by
  induction mark generalizing front place with
  | nil =>
      obtain rfl := List.length_eq_zero_iff.mp size
      rfl
  | cons c mark ih =>
      cases front with
      | nil => simp at size
      | cons d front =>
          have rest := ih front (place + 1) (drop_next buf place d _ here) (by simpa using size)
          rw [Nat.cast_succ] at rest
          rw [memcmp, byte_here buf place d _ here, rest]
          simp [List.cons.injEq]

theorem find_equal_cut (buf text back : Bytes) (current check : Nat) (here : buf.drop current = text ++ back) :
    findEqual buf text.length current check = .ok (match cut 61 text with
      | none => (none, current + text.length,
          text.foldl (fun check c => check * numeric.mapTag2Index (charInt c) % 2 ^ 64) check)
      | some (front, _) => (some (current + front.length), current + front.length + 1,
          front.foldl (fun check c => check * numeric.mapTag2Index (charInt c) % 2 ^ 64) check)) := by
  induction text generalizing current check with
  | nil => rfl
  | cons c text ih =>
      rw [List.length_cons, findEqual, byte_here buf current c _ here]
      simp only [Fallible.ok_bind]
      by_cases stop : c = 61
      · rw [if_pos stop, cut, if_pos stop]
        rfl
      · rw [if_neg stop, ih _ _ (drop_next buf current c _ here), cut, if_neg stop]
        cases later : cut 61 text with
        | none => simp [Nat.add_assoc, Nat.add_comm 1]
        | some split => simp [Nat.add_assoc, Nat.add_comm 1]

theorem find_sep_cut (buf : Bytes) (sep : UInt8) (text back : Bytes) (current : Nat) (here : buf.drop current = text ++ back) :
    findSep buf sep text.length current = .ok (match cut sep text with
      | none => (none, current + text.length)
      | some (front, _) => (some (current + front.length), current + front.length + 1)) := by
  induction text generalizing current with
  | nil => rfl
  | cons c text ih =>
      rw [List.length_cons, findSep, byte_here buf current c _ here]
      simp only [Fallible.ok_bind]
      by_cases stop : c = sep
      · rw [if_pos stop, cut, if_pos stop]
        rfl
      · rw [if_neg stop, ih _ (drop_next buf current c _ here), cut, if_neg stop]
        cases later : cut sep text with
        | none => simp [Nat.add_assoc, Nat.add_comm 1]
        | some split => simp [Nat.add_assoc, Nat.add_comm 1]

theorem cut_split (stop : UInt8) (text front rest : Bytes) (split : cut stop text = some (front, rest)) :
    text = front ++ stop :: rest := by
  induction text generalizing front with
  | nil => simp [cut] at split
  | cons c text ih =>
      rw [cut] at split
      by_cases here : c = stop
      · rw [if_pos here, Option.some.injEq, Prod.mk.injEq] at split
        obtain ⟨rfl, rfl⟩ := split
        rw [here]
        rfl
      · rw [if_neg here, Option.map_eq_some_iff] at split
        obtain ⟨later, found, same⟩ := split
        obtain ⟨rfl, rfl⟩ := Prod.mk.inj same
        rw [ih later.1 found]
        rfl

section Reader

variable (beyond : Nat → Int → Int)

def total : Bytes → Int
  | [] => 0
  | c :: rest => longs beyond rest.length (charInt c - 48) + total rest

def readBeyond (text : Bytes) : Except Fault Int := .ok (if tagnumcheck text ≠ 0 then int (total beyond text) else 0)

theorem fatoi_total (buf text back : Bytes) (ptr : Nat) (rtn : Int) (here : buf.drop ptr = text ++ back) :
    fatoi beyond buf text.length ptr rtn = .ok (rtn + total beyond text) := by
  induction text generalizing ptr rtn with
  | nil => simp [fatoi, total]
  | cons c text ih =>
      rw [List.length_cons, fatoi, byte_here buf ptr c _ here, Fallible.ok_bind, ih _ _ (drop_next buf ptr c _ here), total,
        Int.add_assoc]

theorem step_slice (buf ahead back : Bytes) (sep : UInt8) (start : Nat) (here : buf.drop start = ahead ++ back) :
    step beyond buf sep start (start + ahead.length) = stepWith (readBeyond beyond) sep start ahead := by
  rw [step, stepWith, Nat.add_sub_cancel_left, find_equal_cut buf ahead back start 1 here]
  cases found : cut 61 ahead with
  | none => rfl
  | some split =>
      obtain ⟨text, rest⟩ := split
      have whole := cut_split 61 ahead text rest found
      have left : buf.drop start = text ++ (61 :: (rest ++ back)) := by rw [here, whole, List.append_assoc, List.cons_append]
      have behind : buf.drop (start + text.length + 1) = rest ++ back := by
        rw [Nat.add_assoc, ← List.drop_drop, left, ← List.drop_drop, List.drop_left]
        rfl
      have size : start + ahead.length - (start + text.length + 1) = rest.length := by
        rw [whole, List.length_append, List.length_cons]
        omega
      have tag : tagAt beyond buf (tagnumcheck text) (start + text.length - start) start = readBeyond beyond text := by
        rw [tagAt, Nat.add_sub_cancel_left, fatoi_total beyond buf text _ start 0 left, Int.zero_add, readBeyond]
        split <;> rfl
      rw [Fallible.ok_bind]
      change stepValue beyond buf sep start (start + ahead.length) (start + text.length) (start + text.length + 1)
        (tagnumcheck text) = _
      rw [stepValue, tag, size, find_sep_cut buf sep rest back _ behind]
      cases later : cut sep rest with
      | none => simp [readBeyond, later]
      | some split =>
          by_cases empty : split.1 = []
          · simp [readBeyond, later, empty]
          · simp [readBeyond, later, empty]

theorem read_beyond_agrees (text : Bytes) (tag : Int) (read : readTag text = .ok tag) : readBeyond beyond text = .ok tag := by
  have totals (text : Bytes) (value : Int) (run : Tvp.fatoi text = .ok value) : total beyond text = value := by
    induction text generalizing value with
    | nil => exact Except.ok.inj run
    | cons c rest ih =>
        rw [Tvp.fatoi, Fallible.bind_ok_iff] at run
        obtain ⟨here, column, run⟩ := run
        obtain ⟨more, later, sum⟩ := (Fallible.bind_ok_iff _ _ _).mp run
        rw [total, longs, column, ih more later]
        exact Except.ok.inj sum
  rw [readTag] at read
  rw [readBeyond]
  by_cases digits : tagnumcheck text ≠ 0
  · rw [if_pos digits] at read ⊢
    obtain ⟨value, run, rfl⟩ := (Fallible.map_ok_iff _ _ _).mp read
    rw [totals text value run]
  · rw [if_neg digits] at read ⊢
    exact read

theorem step_agrees (sep : UInt8) (current : Nat) (ahead : Bytes) (outcome : Except ParseError (TVPair × Nat))
    (taken : Tvp.step sep current ahead = .ok outcome) : stepWith (readBeyond beyond) sep current ahead = .ok outcome := by
  rw [Tvp.step, stepWith] at taken
  rw [stepWith]
  cases found : cut 61 ahead with
  | none =>
      rw [found] at taken
      exact taken
  | some split =>
      simp only [found] at taken ⊢
      obtain ⟨tag, read, rest⟩ := (Fallible.bind_ok_iff _ _ _).mp taken
      rw [read_beyond_agrees beyond split.1 tag read]
      exact rest

theorem step_returns (sep : UInt8) (current : Nat) (ahead : Bytes) :
    ∃ outcome, stepWith (readBeyond beyond) sep current ahead = .ok outcome ∧
      ∀ p next, outcome = .ok (p, next) → current < next := by
  rw [stepWith]
  cases found : cut 61 ahead with
  | none => exact ⟨_, rfl, by simp⟩
  | some split =>
      obtain ⟨text, rest⟩ := split
      simp only [readBeyond, Fallible.ok_bind]
      cases later : cut sep rest with
      | none => exact ⟨_, rfl, by simp⟩
      | some split =>
          by_cases empty : split.1 = []
          · simp only [empty, if_true]
            exact ⟨_, rfl, by simp⟩
          · simp only [empty, if_false]
            refine ⟨_, rfl, fun p next same => ?_⟩
            obtain ⟨rfl, rfl⟩ := Prod.mk.inj (Except.ok.inj same)
            omega

variable (clipper : IntClipper) (sep : UInt8)

structure Room (lookup : Lookup) : Prop where
  whole : lookup.originalSize ≤ lookup.content.length
  slots : lookup.alreadySeenTagsCache.length = clipper.nbEntries

theorem record_place (cache : List Where) (slots : cache.length = clipper.nbEntries) (p : TVPair) :
    record clipper cache p = .ok (place clipper cache p) := by
  have few := clipper.index_few p.tag
  rw [record, place]
  cases own : clipper.mapTag2Index p.tag with
  | zero => rfl
  | succ position =>
      rw [own] at few
      rw [slotAt, slots]
      simp [few]

theorem step_ahead (lookup : Lookup) (room : Room clipper lookup) (inside : lookup.lastLookupPosition < lookup.originalSize) :
    step beyond lookup.content sep lookup.lastLookupPosition lookup.originalSize =
      stepWith (readBeyond beyond) sep lookup.lastLookupPosition lookup.ahead := by
  have whole := room.whole
  have here : lookup.content.drop lookup.lastLookupPosition = lookup.ahead ++ lookup.content.drop lookup.originalSize := by
    rw [Lookup.ahead, ← List.drop_append_of_le_length (by rw [List.length_take]; omega), List.take_append_drop]
  have size : lookup.lastLookupPosition + lookup.ahead.length = lookup.originalSize := by
    rw [Lookup.ahead, List.length_drop, List.length_take]
    omega
  rw [← step_slice beyond lookup.content lookup.ahead _ sep lookup.lastLookupPosition here, size]

theorem scan_slice (fuel : Nat) (lookup : Lookup) (room : Room clipper lookup) :
    scan beyond clipper sep fuel lookup = Tvp.scan clipper (stepWith (readBeyond beyond) sep) fuel lookup := by
  induction fuel generalizing lookup with
  | zero => rfl
  | succ fuel ih =>
      rw [scan, Tvp.scan]
      by_cases inside : lookup.lastLookupPosition < lookup.originalSize
      · obtain ⟨outcome, taken, -⟩ := step_returns beyond sep lookup.lastLookupPosition lookup.ahead
        rw [if_pos inside, if_pos inside, step_ahead beyond clipper sep lookup room inside, taken]
        cases outcome with
        | error failure => rfl
        | ok pair =>
            simp only [Fallible.ok_bind, record_place clipper _ room.slots pair.1]
            exact ih _ ⟨room.whole, by rw [place_length]; exact room.slots⟩
      · rw [if_neg inside, if_neg inside]

theorem scan_returns (fuel : Nat) (lookup : Lookup) (room : Room clipper lookup)
    (enough : lookup.originalSize - lookup.lastLookupPosition < fuel) :
    ∃ thrown after, scan beyond clipper sep fuel lookup = .ok (thrown, after) ∧ Room clipper after := by
  rw [scan_slice beyond clipper sep fuel lookup room]
  induction fuel generalizing lookup with
  | zero => omega
  | succ fuel ih =>
      rw [Tvp.scan]
      by_cases inside : lookup.lastLookupPosition < lookup.originalSize
      · obtain ⟨outcome, taken, progress⟩ := step_returns beyond sep lookup.lastLookupPosition lookup.ahead
        rw [if_pos inside, taken]
        cases outcome with
        | error failure => exact ⟨true, lookup, rfl, room⟩
        | ok pair =>
            have further := progress pair.1 pair.2 rfl
            refine ih _ ⟨room.whole, by rw [place_length]; exact room.slots⟩ ?_
            simp only
            omega
      · rw [if_neg inside]
        exact ⟨false, lookup, rfl, room⟩

theorem scan_agrees (fuel : Nat) (lookup : Lookup) (result : Bool × Lookup)
    (run : Tvp.scan clipper (Tvp.step sep) fuel lookup = .ok result) :
    Tvp.scan clipper (stepWith (readBeyond beyond) sep) fuel lookup = .ok result := by
  induction fuel generalizing lookup with
  | zero => exact absurd run nofun
  | succ fuel ih =>
      rw [Tvp.scan] at run ⊢
      by_cases inside : lookup.lastLookupPosition < lookup.originalSize
      · rw [if_pos inside] at run ⊢
        obtain ⟨outcome, taken, rest⟩ := (Fallible.bind_ok_iff _ _ _).mp run
        rw [step_agrees beyond sep _ _ outcome taken]
        cases outcome with
        | error failure => exact rest
        | ok pair => exact ih _ rest
      · rw [if_neg inside] at run ⊢
        exact run

theorem get_pair_agrees (tag : Nat) (lookup : Lookup) (room : Room clipper lookup) (ref : Option StringRef) (after : Lookup)
    (run : Tvp.getPair clipper (Tvp.step sep) tag lookup = .ok (ref, after)) :
    getPair beyond clipper sep tag lookup = .ok (ref, after) ∧ Room clipper after := by
  obtain ⟨thrown, scanned, loop, later⟩ := scan_returns beyond clipper sep (lookup.originalSize + 1) lookup room (by omega)
  rw [Tvp.getPair] at run
  cases own : clipper.mapTag2Index tag with
  | zero => simp [own] at run
  | succ position =>
      have few := clipper.index_few tag
      simp only [own] at run
      obtain ⟨result, sliced, rest⟩ := (Fallible.bind_ok_iff _ _ _).mp run
      have same := scan_agrees beyond clipper sep _ _ _ sliced
      rw [← scan_slice beyond clipper sep _ lookup room, loop] at same
      obtain rfl := Except.ok.inj same
      rw [getPair, slotAt, own, room.slots, if_pos ⟨by omega, by omega⟩]
      simp only [Fallible.ok_bind, loop, Nat.add_sub_cancel]
      refine ⟨rest, ?_⟩
      cases thrown with
      | true =>
          obtain ⟨-, rfl⟩ := Prod.mk.inj (Except.ok.inj rest)
          exact later
      | false =>
          obtain ⟨-, rfl⟩ := Prod.mk.inj (Except.ok.inj rest)
          exact ⟨later.whole, by simpa [found] using later.slots⟩

theorem get_pairs_agrees (tags : List Nat) (lookup : Lookup) (room : Room clipper lookup) (refs : List (Option StringRef))
    (run : (TvpReader.mk clipper sep lookup).getPairs tags = .ok refs) :
    getPairs beyond clipper sep (tags.map fun tag : Nat => (tag : Int)) lookup = .ok refs := by
  induction tags generalizing lookup refs with
  | nil => exact run
  | cons tag tags ih =>
      rw [TvpReader.getPairs, Fallible.bind_ok_iff] at run
      obtain ⟨⟨ref, reader⟩, first, run⟩ := run
      obtain ⟨others, rest, same⟩ := (Fallible.bind_ok_iff _ _ _).mp run
      obtain ⟨⟨ref, after⟩, own, paired⟩ := (Fallible.map_ok_iff _ _ _).mp first
      obtain ⟨rfl, rfl⟩ := Prod.mk.inj paired
      obtain ⟨taken, later⟩ := get_pair_agrees beyond clipper sep tag lookup room ref after own
      rw [List.map_cons, getPairs, taken]
      simp only [Fallible.ok_bind, ih after later others rest]
      exact same

theorem get_pair_accepted (tag : Nat) (accepted : tag ∈ clipper.acceptedTags) (lookup : Lookup) (room : Room clipper lookup) :
    ∃ ref after, getPair beyond clipper sep tag lookup = .ok (ref, after) ∧ Room clipper after := by
  obtain ⟨present, few⟩ := clipper.index_accepted tag accepted
  obtain ⟨thrown, after, run, later⟩ := scan_returns beyond clipper sep (lookup.originalSize + 1) lookup room (by omega)
  rw [getPair, slotAt, room.slots, if_pos ⟨by omega, few⟩]
  simp only [Fallible.ok_bind, run]
  cases thrown with
  | true => exact ⟨none, after, rfl, later⟩
  | false => exact ⟨_, _, rfl, later.whole, by simpa [found] using later.slots⟩

theorem get_pair_foreign (tag : Int) (fits : clipper.Fits tag) (foreign : ∀ a ∈ clipper.acceptedTags, (a : Int) ≠ tag)
    (lookup : Lookup) : getPair beyond clipper sep tag lookup = .error .noSlot := by
  rw [getPair, slotAt, clipper.index_zero tag fits foreign, if_neg (by omega)]
  rfl

theorem get_pairs_accepted (tags : List Int) (fits : ∀ tag ∈ tags, clipper.Fits tag) (lookup : Lookup) (room : Room clipper lookup) :
    (∃ refs, getPairs beyond clipper sep tags lookup = .ok refs) ∧ (∀ tag ∈ tags, ∃ a ∈ clipper.acceptedTags, (a : Int) = tag) ∨
      getPairs beyond clipper sep tags lookup = .error .noSlot ∧ ¬ ∀ tag ∈ tags, ∃ a ∈ clipper.acceptedTags, (a : Int) = tag := by
  induction tags generalizing lookup with
  | nil => exact .inl ⟨⟨[], rfl⟩, by simp⟩
  | cons tag tags ih =>
      by_cases known : ∃ a ∈ clipper.acceptedTags, (a : Int) = tag
      · obtain ⟨a, accepted, rfl⟩ := known
        obtain ⟨ref, after, run, later⟩ := get_pair_accepted beyond clipper sep a accepted lookup room
        rw [getPairs, run, Fallible.ok_bind]
        cases ih (fun other member => fits other (by simp [member])) after later with
        | inl rest =>
            obtain ⟨⟨refs, runs⟩, others⟩ := rest
            refine .inl ⟨⟨ref :: refs, by simp [runs]⟩, ?_⟩
            rw [List.forall_mem_cons]
            exact ⟨⟨a, accepted, rfl⟩, others⟩
        | inr rest =>
            refine .inr ⟨by simp [rest.1], fun every => rest.2 fun other member => every other (by simp [member])⟩
      · have foreign : ∀ a ∈ clipper.acceptedTags, (a : Int) ≠ tag := fun a accepted same => known ⟨a, accepted, same⟩
        rw [getPairs, get_pair_foreign beyond clipper sep tag (fits tag (by simp)) foreign lookup]
        exact .inr ⟨rfl, fun every => known (every tag (by simp))⟩

end Reader

theorem set_trims (buf : Bytes) : set buf = trimmedSize buf := by
  rw [set, trimmedSize]
  by_cases filled : 0 < buf.length
  · rw [if_pos filled, if_pos filled]
    by_cases short : buf.length < 8
    · have before : byteAt buf (buf.length - 8) = .error .outOfBuffer := by
        rw [byteAt]
        split
        · rw [if_neg (by omega)]
        · rfl
      rw [if_pos short, memcmp, before]
      rfl
    · have place : (buf.length : Int) - 8 = (buf.length - 8 : Nat) := by omega
      have compared := memcmp_inside buf [1, 49, 48, 61] ((buf.drop (buf.length - 8)).take 4) ((buf.drop (buf.length - 8)).drop 4)
        (buf.length - 8) (List.take_append_drop 4 _).symm (by simp; omega)
      rw [if_neg short, place, compared, endsInChecksum]
      rfl
  · rw [if_neg filled, if_neg filled]
    rfl

theorem trimmed_iff (buf : Bytes) :
    (∃ size, trimmedSize buf = .ok size) ∧ (buf.length = 0 ∨ 8 ≤ buf.length) ∨
      trimmedSize buf = .error .outOfBuffer ∧ ¬ (buf.length = 0 ∨ 8 ≤ buf.length) := by
  rw [trimmedSize]
  split_ifs
  · exact .inr ⟨rfl, by omega⟩
  · exact .inl ⟨⟨_, rfl⟩, by omega⟩
  · exact .inl ⟨⟨_, rfl⟩, by omega⟩
  · exact .inl ⟨⟨_, rfl⟩, by omega⟩

theorem session_agrees (clipper : IntClipper) (beyond : Nat → Int → Int) (sep : UInt8) (buf : Bytes) (tags : List Nat)
    (reader : TvpReader) (refs : List (Option StringRef)) (accepted : (TvpReader.fresh clipper sep).set buf = .ok reader)
    (run : reader.getPairs tags = .ok refs) : session beyond clipper sep buf (tags.map fun tag : Nat => (tag : Int)) = .ok refs := by
  rw [session, set_trims]
  cases trimmed : trimmedSize buf with
  | error fault => simp [TvpReader.set, TvpReader.fresh, trimmed] at accepted
  | ok size =>
      rw [set_fresh clipper sep buf size trimmed] at accepted
      obtain rfl := Except.ok.inj accepted
      exact get_pairs_agrees beyond clipper sep tags _ ⟨trimmed_within buf size trimmed, by simp [noWheres]⟩ refs run

def Inside (run : Except Fault (List (Option StringRef))) : Prop := run ≠ .error .outOfBuffer ∧ run ≠ .error .noSlot

theorem session_inside_iff (clipper : IntClipper) (beyond : Nat → Int → Int) (sep : UInt8) (buf : Bytes) (tags : List Int)
    (fits : ∀ tag ∈ tags, clipper.Fits tag) :
    (Inside (session beyond clipper sep buf tags) ↔
      (buf.length = 0 ∨ 8 ≤ buf.length) ∧ ∀ tag ∈ tags, ∃ a ∈ clipper.acceptedTags, (a : Int) = tag) ∧
      session beyond clipper sep buf tags ≠ .error .fuel := by
  rw [session, set_trims]
  cases trimmed_iff buf with
  | inl kept =>
      obtain ⟨⟨size, trimmed⟩, sized⟩ := kept
      rw [trimmed, Fallible.ok_bind]
      cases get_pairs_accepted beyond clipper sep tags fits ⟨buf, size, noWheres clipper, 0⟩
        ⟨trimmed_within buf size trimmed, by simp [noWheres]⟩ with
      | inl run =>
          obtain ⟨⟨refs, runs⟩, accepted⟩ := run
          rw [runs]
          exact ⟨⟨fun _ => ⟨sized, accepted⟩, fun _ => ⟨nofun, nofun⟩⟩, nofun⟩
      | inr run =>
          rw [run.1]
          exact ⟨⟨fun inside => absurd rfl inside.2, fun both => absurd both.2 run.2⟩, nofun⟩
  | inr outside =>
      rw [outside.1]
      exact ⟨⟨fun inside => absurd rfl inside.1, fun both => absurd both.1 outside.2⟩, nofun⟩

theorem session_inside_iff_reads :
    let clipper : IntClipper := ⟨[35, 58], by simp, by decide⟩
    let buf : Bytes := [51, 53, 61, 68, 1, 53, 56, 61, 97, 1]
    (Inside (session (fun _ _ => 0) clipper 1 buf [58, 35]) ↔
      (buf.length = 0 ∨ 8 ≤ buf.length) ∧ ∀ tag ∈ [58, 35], ∃ a ∈ clipper.acceptedTags, (a : Int) = tag) ∧
      session (fun _ _ => 0) clipper 1 buf [58, 35] ≠ .error .fuel :=
  session_inside_iff ⟨[35, 58], by simp, by decide⟩ (fun _ _ => 0) 1 [51, 53, 61, 68, 1, 53, 56, 61, 97, 1] [58, 35]
    (by simp only [IntClipper.Fits]; decide)

theorem session_reads_before :
    let clipper : IntClipper := ⟨[8, 9, 35, 48, 22, 11, 41, 1], by simp, by decide⟩
    session (fun _ _ => 0) clipper 1 [56, 61, 97, 98, 99, 100, 1] [8] = .error .outOfBuffer ∧
      session (fun _ _ => 0) clipper 1 [56, 61, 97, 98, 99, 100, 101, 1] [8, 10] = .error .noSlot := by
  exact ⟨rfl, rfl⟩

end Libx.Tvp.Checked

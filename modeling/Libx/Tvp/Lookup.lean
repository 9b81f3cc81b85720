import Libx.Tvp.Step

set_option autoImplicit false

namespace Libx.Tvp

-- Offset is an unsigned short.
structure Where where
  offset : UInt16
  len : UInt16
deriving DecidableEq, Repr

-- The members that getPair works on; the readers differ in what is around them.
structure Lookup where
  content : Bytes
  originalSize : Nat
  alreadySeenTagsCache : List Where
  lastLookupPosition : Nat
deriving DecidableEq, Repr

structure StringRef where
  offset : Nat
  len : Nat
deriving DecidableEq, Repr

def StringRef.text (content : Bytes) (ref : StringRef) : Bytes := (content.drop ref.offset).take ref.len

abbrev Stepper := Nat → Bytes → Except Fault (Except ParseError (TVPair × Nat))

section GetPair

variable (clipper : IntClipper) (step : Stepper)

def place (cache : List Where) (p : TVPair) : List Where :=
  match clipper.mapTag2Index p.tag with
  | 0 => cache
  | position + 1 => cache.set position ⟨.ofNat p.content, .ofNat p.len⟩

-- The bytes from current to end; current is always start + _lastLookupPosition.
def Lookup.ahead (lookup : Lookup) : Bytes := (lookup.content.take lookup.originalSize).drop lookup.lastLookupPosition

-- The loop of getPair, and whether an exception ended it.
def scan : Nat → Lookup → Except Fault (Bool × Lookup)
  | 0, _ => .error .fuel
  | fuel + 1, lookup =>
      if lookup.lastLookupPosition < lookup.originalSize then do
        match ← step lookup.lastLookupPosition lookup.ahead with
        | .error _ => return (true, lookup)
        | .ok (p, current) =>
            scan fuel { lookup with
              lastLookupPosition := current
              alreadySeenTagsCache := place clipper lookup.alreadySeenTagsCache p }
      else return (false, lookup)

def found (position : Nat) (lookup : Lookup) : Option StringRef × Lookup :=
  let loc := lookup.alreadySeenTagsCache.getD position ⟨0, 0⟩
  let loc := if loc.offset = 0 then { loc with offset := 1 } else loc
  (some ⟨loc.offset.toNat, loc.len.toNat⟩,
    { lookup with alreadySeenTagsCache := lookup.alreadySeenTagsCache.set position loc })

-- getPair<TAG>; none is the empty string_ref it returns after an exception.
def getPair (tag : Nat) (lookup : Lookup) : Except Fault (Option StringRef × Lookup) :=
  match clipper.mapTag2Index tag with
  | 0 => .error .noSlot
  | position + 1 => do
      let (thrown, lookup) ← scan clipper step (lookup.originalSize + 1) lookup
      if thrown then return (none, lookup) else return found position lookup

end GetPair

abbrev Field := Bytes × Bytes

def renderField (sep : UInt8) (field : Field) : Bytes := field.1 ++ 61 :: (field.2 ++ [sep])
def render (sep : UInt8) (fields : List Field) : Bytes := fields.flatMap (renderField sep)

def tagOf (field : Field) : Nat := (numericTag field.1).getD 0

def pairAt (start : Nat) (field : Field) : TVPair := ⟨tagOf field, start + field.1.length + 1, field.2.length⟩

def pairsAt (sep : UInt8) : Nat → List Field → List TVPair
  | _, [] => []
  | start, field :: fields => pairAt start field :: pairsAt sep (start + (renderField sep field).length) fields

def Takes (step : Stepper) (sep : UInt8) (field : Field) : Prop :=
  ∀ current back, step current (renderField sep field ++ back) =
    .ok (.ok (pairAt current field, current + (renderField sep field).length))

theorem field_length (sep : UInt8) (field : Field) :
    (renderField sep field).length = field.1.length + 1 + field.2.length + 1 := by
  simp only [renderField, List.length_append, List.length_cons, List.length_nil]
  omega

theorem step_rendered (readTag : Bytes → Except Fault Int) (sep : UInt8) (field : Field) (current : Nat) (back : Bytes) (tag : Int)
    (clean : 61 ∉ field.1) (read : readTag field.1 = .ok tag) (inside : sep ∉ field.2) (filled : field.2 ≠ []) :
    stepWith readTag sep current (renderField sep field ++ back) =
      .ok (.ok (⟨tag, current + field.1.length + 1, field.2.length⟩, current + (renderField sep field).length)) := by
  have taken := step_field readTag sep current field.1 field.2 back tag clean read inside filled
  have behind : current + (field.1.length + 1 + field.2.length + 1) = current + field.1.length + 1 + field.2.length + 1 := by
    omega
  rw [field_length, behind, renderField, List.append_assoc, List.cons_append, List.append_assoc, List.singleton_append]
  exact taken

theorem step_takes (sep : UInt8) (field : Field) (clean : 61 ∉ field.1) (readable : Readable field.1) (inside : sep ∉ field.2)
    (filled : field.2 ≠ []) : Takes (step sep) sep field := fun current back =>
  step_rendered readTag sep field current back _ clean (read_tag_readable field.1 readable) inside filled

theorem render_cons (sep : UInt8) (field : Field) (fields : List Field) :
    render sep (field :: fields) = renderField sep field ++ render sep fields := by
  simp [render]

theorem fields_few (sep : UInt8) (fields : List Field) : fields.length ≤ (render sep fields).length := by
  induction fields with
  | nil => exact Nat.le_refl 0
  | cons field fields ih =>
      have size := field_length sep field
      simp only [render, List.flatMap_cons, List.length_append, List.length_cons] at ih ⊢
      omega

theorem ahead_field (sep : UInt8) (lookup : Lookup) (field : Field) (back : Bytes) (ahead : lookup.ahead = renderField sep field ++ back) :
    lookup.lastLookupPosition < lookup.originalSize ∧
      (lookup.content.take lookup.originalSize).drop (lookup.lastLookupPosition + (renderField sep field).length) = back := by
  constructor
  · have size := field_length sep field
    have length := congrArg List.length ahead
    simp only [Lookup.ahead, List.length_drop, List.length_take, List.length_append] at length
    omega
  · rw [← List.drop_drop]
    exact (congrArg (List.drop (renderField sep field).length) ahead).trans List.drop_left

section Scan

variable (clipper : IntClipper) (step : Stepper) (sep : UInt8)

def Lookup.past (fields : List Field) (lookup : Lookup) : Lookup :=
  { lookup with
    lastLookupPosition := lookup.lastLookupPosition + (render sep fields).length
    alreadySeenTagsCache := (pairsAt sep lookup.lastLookupPosition fields).foldl (place clipper) lookup.alreadySeenTagsCache }

-- Induction on the fields that are still ahead; the loop goes on behind them.
theorem scan_past (fields : List Field) (takes : ∀ field ∈ fields, Takes step sep field) (rest : Bytes) (lookup : Lookup)
    (fuel : Nat) (ahead : lookup.ahead = render sep fields ++ rest) :
    scan clipper step (fields.length + fuel) lookup = scan clipper step fuel (lookup.past clipper sep fields) := by
  induction fields generalizing lookup with
  | nil => simp [Lookup.past, render, pairsAt]
  | cons field fields ih =>
      rw [render_cons, List.append_assoc] at ahead
      obtain ⟨bound, remaining⟩ := ahead_field sep lookup field (render sep fields ++ rest) ahead
      have taken := takes field (by simp) lookup.lastLookupPosition (render sep fields ++ rest)
      have later := ih (fun other member => takes other (by simp [member]))
        { lookup with
          lastLookupPosition := lookup.lastLookupPosition + (renderField sep field).length
          alreadySeenTagsCache := place clipper lookup.alreadySeenTagsCache (pairAt lookup.lastLookupPosition field) } remaining
      rw [show (field :: fields).length + fuel = fields.length + fuel + 1 by simp only [List.length_cons]; omega, scan,
        if_pos bound, ahead, taken]
      simp only [Fallible.ok_bind]
      rw [later, Lookup.past, Lookup.past, render_cons, List.length_append, ← Nat.add_assoc]
      rfl

end Scan

def lastValue (tag : Nat) (fields : List Field) : Option Bytes :=
  ((fields.filter fun field => numericTag field.1 = some tag).map Prod.snd).getLast?

section Slots

variable (clipper : IntClipper) (sep : UInt8)

def Occupies (position : Nat) (p : TVPair) : Bool := clipper.mapTag2Index p.tag = position + 1

theorem place_length (cache : List Where) (p : TVPair) : (place clipper cache p).length = cache.length := by
  unfold place
  split <;> simp

theorem placed_length (pairs : List TVPair) (cache : List Where) : (pairs.foldl (place clipper) cache).length = cache.length := by
  induction pairs generalizing cache with
  | nil => rfl
  | cons p pairs ih => rw [List.foldl_cons, ih, place_length]

theorem place_slot (cache : List Where) (p : TVPair) (position : Nat) (inside : position < cache.length) :
    (place clipper cache p).getD position ⟨0, 0⟩ =
      if Occupies clipper position p then ⟨.ofNat p.content, .ofNat p.len⟩ else cache.getD position ⟨0, 0⟩ := by
  unfold place Occupies
  split
  · rename_i zero
    simp [zero]
  · rename_i other own
    by_cases same : other = position
    · simp [own, same, inside, List.getD_eq_getElem?_getD]
    · simp [own, same, List.getD_eq_getElem?_getD, List.getElem?_set_ne same]

theorem placed_slot (pairs : List TVPair) (cache : List Where) (position : Nat) (inside : position < cache.length) :
    (pairs.foldl (place clipper) cache).getD position ⟨0, 0⟩ =
      (((pairs.filter (Occupies clipper position)).getLast?).map fun p => (⟨.ofNat p.content, .ofNat p.len⟩ : Where)).getD
        (cache.getD position ⟨0, 0⟩) := by
  induction pairs generalizing cache with
  | nil => rfl
  | cons p pairs ih =>
      rw [List.foldl_cons, ih _ (by rw [place_length]; exact inside), place_slot clipper cache p position inside]
      by_cases own : Occupies clipper position p = true
      · rw [if_pos own, List.filter_cons_of_pos own, List.getLast?_cons]
        cases (pairs.filter (Occupies clipper position)).getLast? <;> rfl
      · rw [if_neg own, List.filter_cons_of_neg own]

def pairText (content : Bytes) (p : TVPair) : Bytes := (content.drop p.content).take p.len

theorem pairs_values (tag position : Nat) (accepted : tag ∈ clipper.acceptedTags) (positive : 0 < tag)
    (slot : clipper.mapTag2Index tag = position + 1) (content rest : Bytes) (start : Nat) (fields : List Field)
    (small : ∀ field ∈ fields, tagOf field + 1 < 2 ^ 31) (here : content.drop start = render sep fields ++ rest) :
    ((pairsAt sep start fields).filter (Occupies clipper position)).map (pairText content) =
      (fields.filter fun field => numericTag field.1 = some tag).map Prod.snd := by
  induction fields generalizing start with
  | nil => rfl
  | cons field fields ih =>
      have fits := clipper.fits_nonnegative (tagOf field) (by omega) (by have := small field (by simp); omega)
      have own : Occupies clipper position (pairAt start field) = true ↔ numericTag field.1 = some tag := by
        rw [Occupies, decide_eq_true_eq, ← slot, pairAt, clipper.index_eq_iff tag _ accepted fits, Nat.cast_inj, tagOf]
        cases numericTag field.1 with
        | none =>
            simp only [Option.getD_none, reduceCtorEq, iff_false]
            omega
        | some value => simp
      rw [render_cons, List.append_assoc] at here
      have later : content.drop (start + (renderField sep field).length) = render sep fields ++ rest := by
        rw [← List.drop_drop, here, List.drop_left]
      have text : pairText content (pairAt start field) = field.2 := by
        have behind : content.drop (start + field.1.length + 1) = field.2 ++ ([sep] ++ (render sep fields ++ rest)) := by
          rw [Nat.add_assoc, ← List.drop_drop, here]
          simp [renderField]
        rw [pairText, pairAt, behind, List.take_left]
      have tail := ih (start + (renderField sep field).length) (fun other member => small other (by simp [member])) later
      by_cases same : numericTag field.1 = some tag
      · rw [pairsAt, List.filter_cons_of_pos (own.mpr same), List.map_cons, tail, text,
          List.filter_cons_of_pos (by simpa using same), List.map_cons]
      · rw [pairsAt, List.filter_cons_of_neg (mt own.mp same), tail, List.filter_cons_of_neg (by simpa using same)]

theorem pairs_bounds (start : Nat) (fields : List Field) (p : TVPair) (member : p ∈ pairsAt sep start fields) :
    start < p.content ∧ p.content + p.len ≤ start + (render sep fields).length := by
  induction fields generalizing start with
  | nil => simp [pairsAt] at member
  | cons field fields ih =>
      have whole : (render sep (field :: fields)).length = (renderField sep field).length + (render sep fields).length := by
        simp [render]
      have size := field_length sep field
      rcases List.mem_cons.mp member with rfl | later
      · simp only [pairAt]
        omega
      · have rest := ih _ later
        omega

structure Slot (content : Bytes) (value : Option Bytes) (loc : Where) : Prop where
  text : (content.drop loc.offset.toNat).take loc.len.toNat = value.getD []
  unset : loc.offset = 0 → loc.len = 0

structure Scanned (fields : List Field) (lookup : Lookup) : Prop where
  finished : lookup.originalSize ≤ lookup.lastLookupPosition
  slots : lookup.alreadySeenTagsCache.length = clipper.nbEntries
  shown : ∀ tag ∈ clipper.acceptedTags, ∀ position, clipper.mapTag2Index tag = position + 1 →
    Slot lookup.content (lastValue tag fields) (lookup.alreadySeenTagsCache.getD position ⟨0, 0⟩)

-- The sentinel offset that getPair writes for an absent tag changes no text.
theorem found_scanned (fields : List Field) (lookup : Lookup) (scanned : Scanned clipper fields lookup) (tag position : Nat)
    (accepted : tag ∈ clipper.acceptedTags) (slot : clipper.mapTag2Index tag = position + 1) :
    ∃ ref, (found position lookup).1 = some ref ∧ ref.text lookup.content = (lastValue tag fields).getD [] ∧
      Scanned clipper fields (found position lookup).2 ∧ (found position lookup).2.content = lookup.content := by
  have own := scanned.shown tag accepted position slot
  have inside : position < lookup.alreadySeenTagsCache.length := by
    have few := (clipper.index_accepted tag accepted).2
    rw [scanned.slots]
    omega
  have kept (w : Where) (shows_ : Slot lookup.content (lastValue tag fields) w) :
      Scanned clipper fields { lookup with alreadySeenTagsCache := lookup.alreadySeenTagsCache.set position w } := by
    refine ⟨scanned.finished, by simpa using scanned.slots, fun other otherAccepted otherPosition otherSlot => ?_⟩
    by_cases same : position = otherPosition
    · obtain rfl : other = tag := clipper.index_apart other tag otherAccepted accepted (by rw [slot, otherSlot, same])
      simpa [List.getD_eq_getElem?_getD, ← same, inside] using shows_
    · simpa [List.getD_eq_getElem?_getD, List.getElem?_set_ne same] using scanned.shown other otherAccepted otherPosition otherSlot
  by_cases unset : (lookup.alreadySeenTagsCache.getD position ⟨0, 0⟩).offset = 0
  · have empty := own.unset unset
    have absent := own.text
    rw [empty] at absent
    have sentinel : Slot lookup.content (lastValue tag fields)
        ⟨1, (lookup.alreadySeenTagsCache.getD position ⟨0, 0⟩).len⟩ := by
      refine ⟨?_, fun zero => absurd zero (show ¬ (1 : UInt16) = 0 by decide)⟩
      rw [empty]
      exact absent
    rw [found, if_pos unset]
    exact ⟨_, rfl, sentinel.text, kept _ sentinel, rfl⟩
  · rw [found, if_neg unset]
    exact ⟨_, rfl, own.text, kept _ own, rfl⟩

end Slots

section Ready

variable (clipper : IntClipper) (step : Stepper) (sep : UInt8)

def Ready (fields : List Field) (lookup : Lookup) : Prop :=
  ∃ after, scan clipper step (lookup.originalSize + 1) lookup = .ok (false, after) ∧ Scanned clipper fields after ∧
    after.content = lookup.content

theorem scanned_ready (fields : List Field) (lookup : Lookup) (scanned : Scanned clipper fields lookup) :
    Ready clipper step fields lookup := by
  refine ⟨lookup, ?_, scanned, rfl⟩
  have finished := scanned.finished
  rw [scan, if_neg (by omega)]
  rfl

theorem offset_exact (value : Nat) (small : value < 65536) : (UInt16.ofNat value).toNat = value :=
  UInt16.toNat_ofNat_of_lt' small

theorem fresh_ready (positive : ∀ tag ∈ clipper.acceptedTags, 0 < tag) (fields : List Field) (rest : Bytes)
    (takes : ∀ field ∈ fields, Takes step sep field) (small : ∀ field ∈ fields, tagOf field + 1 < 2 ^ 31)
    (short : (render sep fields).length < 65536) :
    Ready clipper step fields
      ⟨render sep fields ++ rest, (render sep fields).length, List.replicate clipper.nbEntries ⟨0, 0⟩, 0⟩ := by
  let fresh : Lookup := ⟨render sep fields ++ rest, (render sep fields).length, List.replicate clipper.nbEntries ⟨0, 0⟩, 0⟩
  have scanned : scan clipper step ((render sep fields).length + 1) fresh = .ok (false, fresh.past clipper sep fields) := by
    have few := fields_few sep fields
    have passed := scan_past clipper step sep fields takes [] fresh ((render sep fields).length - fields.length + 1)
      (by simp [fresh, Lookup.ahead])
    rw [show fields.length + ((render sep fields).length - fields.length + 1) = (render sep fields).length + 1 by omega] at passed
    rw [passed, scan, if_neg (by simp [fresh, Lookup.past])]
    rfl
  refine ⟨_, scanned, ⟨by simp [fresh, Lookup.past], by simp [fresh, Lookup.past, placed_length],
    fun tag accepted position slot => ?_⟩, rfl⟩
  have few := (clipper.index_accepted tag accepted).2
  have values := pairs_values clipper sep tag position accepted (positive tag accepted) slot (render sep fields ++ rest) rest 0
    fields small rfl
  simp only [fresh, Lookup.past]
  rw [placed_slot clipper _ _ position (by simp; omega), lastValue, ← values, List.getLast?_map]
  cases last : ((pairsAt sep 0 fields).filter (Occupies clipper position)).getLast? with
  | none => constructor <;> simp [List.getD_eq_getElem?_getD, show position < clipper.nbEntries by omega]
  | some p =>
      have bounds := pairs_bounds sep 0 fields p (List.mem_of_mem_filter (List.mem_of_getLast? last))
      have offset := offset_exact p.content (by omega)
      have len := offset_exact p.len (by omega)
      refine ⟨by simp [pairText, offset, len], fun zero => ?_⟩
      have same := congrArg UInt16.toNat zero
      simp only [Option.map_some, Option.getD_some, offset] at same
      exact absurd same (by simp; omega)

theorem get_pair_ready (fields : List Field) (lookup : Lookup) (ready : Ready clipper step fields lookup) (tag : Nat)
    (accepted : tag ∈ clipper.acceptedTags) :
    ∃ ref after, getPair clipper step tag lookup = .ok (some ref, after) ∧
      ref.text lookup.content = (lastValue tag fields).getD [] ∧ Ready clipper step fields after ∧
      after.content = lookup.content := by
  obtain ⟨scanned, run, holds, same⟩ := ready
  obtain ⟨position, slot⟩ := Nat.exists_eq_succ_of_ne_zero (clipper.index_accepted tag accepted).1
  obtain ⟨ref, returned, text, later, kept⟩ := found_scanned clipper fields scanned holds tag position accepted slot
  refine ⟨ref, (found position scanned).2, ?_, same ▸ text, scanned_ready clipper step fields _ later, kept.trans same⟩
  rw [getPair, slot]
  simp only [run, Fallible.ok_bind, Bool.false_eq_true, if_false, Fallible.pure_eq_ok, ← returned]

end Ready

end Libx.Tvp

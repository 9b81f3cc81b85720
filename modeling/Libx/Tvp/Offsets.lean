import Libx.Tvp.Reader

set_option autoImplicit false

namespace Libx.Tvp

section Writes

variable (clipper : IntClipper) (step : Stepper)

def kept (p : TVPair) : Bool := clipper.mapTag2Index p.tag ≠ 0

def writes : Nat → Lookup → List TVPair
  | 0, _ => []
  | fuel + 1, lookup =>
      if lookup.lastLookupPosition < lookup.originalSize then
        match step lookup.lastLookupPosition lookup.ahead with
        | .ok (.ok (p, current)) =>
            let later := writes fuel { lookup with
              lastLookupPosition := current
              alreadySeenTagsCache := place clipper lookup.alreadySeenTagsCache p }
            if kept clipper p then p :: later else later
        | _ => []
      else []

theorem place_dropped (cache : List Where) (p : TVPair) (dropped : kept clipper p = false) : place clipper cache p = cache := by
  have zero : clipper.mapTag2Index p.tag = 0 := by simpa [kept] using dropped
  rw [place, zero]

theorem scan_writes (fuel : Nat) (lookup after : Lookup) (thrown : Bool) (run : scan clipper step fuel lookup = .ok (thrown, after)) :
    after.alreadySeenTagsCache = (writes clipper step fuel lookup).foldl (place clipper) lookup.alreadySeenTagsCache := by
  induction fuel generalizing lookup with
  | zero => exact absurd run nofun
  | succ fuel ih =>
      rw [scan] at run
      rw [writes]
      by_cases inside : lookup.lastLookupPosition < lookup.originalSize
      · rw [if_pos inside] at run ⊢
        cases taken : step lookup.lastLookupPosition lookup.ahead with
        | error fault => simp [taken] at run
        | ok outcome =>
            cases outcome with
            | error failure =>
                simp only [taken, Fallible.ok_bind, Fallible.pure_eq_ok, Except.ok.injEq, Prod.mk.injEq] at run
                simp [run.2]
            | ok pair =>
                simp only [taken, Fallible.ok_bind] at run
                have rest := ih _ run
                cases own : kept clipper pair.1 with
                | false => simpa [own, place_dropped clipper _ pair.1 own] using rest
                | true => simpa [own] using rest
      · rw [if_neg inside] at run ⊢
        obtain ⟨-, rfl⟩ := Prod.mk.inj (Except.ok.inj run)
        rfl

end Writes

namespace TvpReader

def writes (reader : TvpReader) : List TVPair :=
  Tvp.writes reader.clipper (step reader.sep) (reader.lookup.originalSize + 1) reader.lookup

def written (reader : TvpReader) : List Nat → List TVPair
  | [] => []
  | tag :: tags =>
      reader.writes ++ match reader.getPair tag with
        | .ok (_, reader) => written reader tags
        | .error _ => []

end TvpReader

def Preserved (p : TVPair) : Prop := (UInt16.ofNat p.content).toNat = p.content ∧ (UInt16.ofNat p.len).toNat = p.len

def Narrow (p : TVPair) : Prop := p.content < 65536 ∧ p.len < 65536

structure Splits (sep : UInt8) (field : Field) : Prop where
  tag : 61 ∉ field.1
  read : ∃ tag, readTag field.1 = .ok tag
  value : field.2 ≠ [] ∧ sep ∉ field.2

def tagRead (text : Bytes) : Int := (readTag text).toOption.getD 0

structure Located where
  pair : TVPair
  value : Bytes

def locate (sep : UInt8) : Nat → List Field → List Located
  | _, [] => []
  | start, field :: fields =>
      ⟨⟨tagRead field.1, start + field.1.length + 1, field.2.length⟩, field.2⟩ ::
        locate sep (start + (renderField sep field).length) fields

theorem preserved_iff (p : TVPair) : Preserved p ↔ Narrow p := by
  simp only [Preserved, Narrow, UInt16.toNat_ofNat']
  omega

theorem step_splits (sep : UInt8) (field : Field) (splits : Splits sep field) (current : Nat) (back : Bytes) :
    step sep current (renderField sep field ++ back) =
      .ok (.ok (⟨tagRead field.1, current + field.1.length + 1, field.2.length⟩, current + (renderField sep field).length)) := by
  obtain ⟨tag, read⟩ := splits.read
  rw [tagRead, read]
  exact step_rendered readTag sep field current back tag splits.tag read splits.value.2 splits.value.1

theorem well_formed_splits (sep : UInt8) (field : Field) (wellFormed : WellFormed sep field) : Splits sep field :=
  ⟨wellFormed.tag.1, ⟨_, read_tag_readable field.1 (well_formed_readable sep field wellFormed)⟩, wellFormed.value⟩

theorem locate_text (sep : UInt8) (buf rest : Bytes) (start : Nat) (fields : List Field)
    (here : buf.drop start = render sep fields ++ rest) (found : Located) (member : found ∈ locate sep start fields) :
    start < found.pair.content ∧ (buf.drop found.pair.content).take found.pair.len = found.value := by
  induction fields generalizing start with
  | nil => simp [locate] at member
  | cons field fields ih =>
      rw [render_cons, List.append_assoc] at here
      rw [locate, List.mem_cons] at member
      cases member with
      | inl same =>
          subst same
          have behind : buf.drop (start + field.1.length + 1) = field.2 ++ ([sep] ++ (render sep fields ++ rest)) := by
            rw [Nat.add_assoc, ← List.drop_drop, here]
            simp [renderField]
          exact ⟨by simp only; omega, by rw [behind, List.take_left]⟩
      | inr later =>
          have onward : buf.drop (start + (renderField sep field).length) = render sep fields ++ rest := by
            rw [← List.drop_drop, here, List.drop_left]
          obtain ⟨low, text⟩ := ih _ onward later
          exact ⟨by omega, text⟩

section Reads

variable (clipper : IntClipper) (sep : UInt8)

def keptPairs (start : Nat) (fields : List Field) : List TVPair :=
  ((locate sep start fields).map Located.pair).filter (kept clipper)

theorem ahead_nil (lookup : Lookup) (whole : lookup.originalSize ≤ lookup.content.length) (empty : lookup.ahead = []) :
    lookup.originalSize ≤ lookup.lastLookupPosition := by
  have length := congrArg List.length empty
  simp only [Lookup.ahead, List.length_drop, List.length_take, List.length_nil] at length
  omega

-- Induction on the fields that are still ahead.
theorem scan_fields (fields : List Field) (splits : ∀ field ∈ fields, Splits sep field) (lookup : Lookup)
    (whole : lookup.originalSize ≤ lookup.content.length) (ahead : lookup.ahead = render sep fields) (fuel : Nat)
    (enough : fields.length < fuel) :
    writes clipper (step sep) fuel lookup = keptPairs clipper sep lookup.lastLookupPosition fields ∧
      ∃ after, scan clipper (step sep) fuel lookup = .ok (false, after) ∧ after.content = lookup.content ∧
        after.originalSize ≤ after.lastLookupPosition := by
  induction fields generalizing lookup fuel with
  | nil =>
      have finished := ahead_nil lookup whole ahead
      cases fuel with
      | zero => simp at enough
      | succ fuel =>
          rw [writes, scan, if_neg (by omega), if_neg (by omega)]
          exact ⟨rfl, lookup, rfl, rfl, finished⟩
  | cons field fields ih =>
      cases fuel with
      | zero => simp at enough
      | succ fuel =>
          rw [render_cons] at ahead
          obtain ⟨inside, onward⟩ := ahead_field sep lookup field _ ahead
          have taken := step_splits sep field (splits field (by simp)) lookup.lastLookupPosition (render sep fields)
          obtain ⟨pairs, after, run, same, finished⟩ := ih (fun other member => splits other (by simp [member]))
            { lookup with
              lastLookupPosition := lookup.lastLookupPosition + (renderField sep field).length
              alreadySeenTagsCache := place clipper lookup.alreadySeenTagsCache
                ⟨tagRead field.1, lookup.lastLookupPosition + field.1.length + 1, field.2.length⟩ }
            whole onward fuel (by simpa using enough)
          refine ⟨?_, after, ?_, same, finished⟩
          · rw [writes, if_pos inside, ahead, taken]
            simp only [pairs, keptPairs, locate, List.map_cons, List.filter_cons]
          · rw [scan, if_pos inside, ahead, taken]
            exact run

def Stored : Option TVPair → Where → Prop
  | none, loc => loc.len = 0
  | some p, loc => loc.offset.toNat = p.content ∧ loc.len.toNat = p.len

structure Shown (pairs : List TVPair) (lookup : Lookup) : Prop where
  finished : lookup.originalSize ≤ lookup.lastLookupPosition
  slots : lookup.alreadySeenTagsCache.length = clipper.nbEntries
  shown : ∀ position, position < clipper.nbEntries →
    Stored (pairs.filter (Occupies clipper position)).getLast? (lookup.alreadySeenTagsCache.getD position ⟨0, 0⟩)

theorem placed_stored (pairs : List TVPair) (narrow : ∀ p ∈ pairs, Narrow p) (position : Nat) (inside : position < clipper.nbEntries) :
    Stored (pairs.filter (Occupies clipper position)).getLast?
      ((pairs.foldl (place clipper) (noWheres clipper)).getD position ⟨0, 0⟩) := by
  rw [placed_slot clipper pairs (noWheres clipper) position (by simpa [noWheres] using inside)]
  cases last : (pairs.filter (Occupies clipper position)).getLast? with
  | none => simp [Stored, noWheres, List.getD_eq_getElem?_getD, inside]
  | some p => exact (preserved_iff p).mpr (narrow p (List.mem_of_mem_filter (List.mem_of_getLast? last)))

def Matches (content : Bytes) : Option TVPair → Option StringRef → Prop
  | none, ref => refText content ref = []
  | some p, ref => ref = some ⟨p.content, p.len⟩

theorem found_shown (pairs : List TVPair) (behind : ∀ p ∈ pairs, 0 < p.content) (lookup : Lookup)
    (shown : Shown clipper pairs lookup) (position : Nat) (inside : position < clipper.nbEntries) :
    Matches lookup.content (pairs.filter (Occupies clipper position)).getLast? (found position lookup).1 ∧
      Shown clipper pairs (found position lookup).2 := by
  have own := shown.shown position inside
  have stays (loc : Where) (stored : Stored (pairs.filter (Occupies clipper position)).getLast? loc) :
      Shown clipper pairs { lookup with alreadySeenTagsCache := lookup.alreadySeenTagsCache.set position loc } := by
    refine ⟨shown.finished, by simpa using shown.slots, fun other otherInside => ?_⟩
    by_cases same : position = other
    · subst same
      simpa [List.getD_eq_getElem?_getD, shown.slots, inside] using stored
    · simpa [List.getD_eq_getElem?_getD, List.getElem?_set_ne same] using shown.shown other otherInside
  cases last : (pairs.filter (Occupies clipper position)).getLast? with
  | none =>
      rw [last] at own stays
      have empty : (lookup.alreadySeenTagsCache.getD position ⟨0, 0⟩).len = 0 := own
      have blank (offset : Nat) :
          refText lookup.content (some ⟨offset, (lookup.alreadySeenTagsCache.getD position ⟨0, 0⟩).len.toNat⟩) = [] := by
        rw [empty]
        simp [refText, StringRef.text]
      by_cases unset : (lookup.alreadySeenTagsCache.getD position ⟨0, 0⟩).offset = 0
      · rw [found, if_pos unset]
        exact ⟨blank _, stays _ empty⟩
      · rw [found, if_neg unset]
        exact ⟨blank _, stays _ empty⟩
  | some p =>
      rw [last] at own stays
      have positive := behind p (List.mem_of_mem_filter (List.mem_of_getLast? last))
      have present : (lookup.alreadySeenTagsCache.getD position ⟨0, 0⟩).offset ≠ 0 := by
        intro zero
        have content := own.1
        rw [zero, UInt16.toNat_zero] at content
        omega
      rw [found, if_neg present]
      exact ⟨by simp only [Matches, own.1, own.2], stays _ own⟩

structure Sound (pairs : List TVPair) (lookup : Lookup) : Prop where
  narrow : ∀ p ∈ writes clipper (step sep) (lookup.originalSize + 1) lookup, Narrow p
  scanned : ∃ after, scan clipper (step sep) (lookup.originalSize + 1) lookup = .ok (false, after) ∧
    after.content = lookup.content ∧ Shown clipper pairs after

theorem shown_sound (pairs : List TVPair) (lookup : Lookup) (shown : Shown clipper pairs lookup) :
    Sound clipper sep pairs lookup := by
  have finished := shown.finished
  constructor
  · simp [writes, show ¬ lookup.lastLookupPosition < lookup.originalSize by omega]
  · refine ⟨lookup, ?_, rfl, shown⟩
    rw [scan, if_neg (by omega)]
    rfl

theorem get_pair_sound (pairs : List TVPair) (behind : ∀ p ∈ pairs, 0 < p.content) (lookup : Lookup)
    (sound : Sound clipper sep pairs lookup) (tag position : Nat) (slot : clipper.mapTag2Index tag = position + 1)
    (inside : position < clipper.nbEntries) :
    ∃ ref after, getPair clipper (step sep) tag lookup = .ok (ref, after) ∧ after.content = lookup.content ∧
      Matches lookup.content (pairs.filter (Occupies clipper position)).getLast? ref ∧ Sound clipper sep pairs after := by
  obtain ⟨scanned, run, same, shown⟩ := sound.scanned
  obtain ⟨matched, later⟩ := found_shown clipper pairs behind scanned shown position inside
  refine ⟨(found position scanned).1, (found position scanned).2, ?_, same, ?_, shown_sound clipper sep pairs _ later⟩
  · rw [getPair, slot]
    simp only [run, Fallible.ok_bind, Bool.false_eq_true, if_false, Fallible.pure_eq_ok]
  · rw [← same]
    exact matched

theorem run_sound (pairs : List TVPair) (behind : ∀ p ∈ pairs, 0 < p.content) (tags : List Nat)
    (accepted : ∀ tag ∈ tags, tag ∈ clipper.acceptedTags) (lookup : Lookup) (sound : Sound clipper sep pairs lookup) :
    (∀ p ∈ (TvpReader.mk clipper sep lookup).written tags, Narrow p) ∧
      ∃ refs, (TvpReader.mk clipper sep lookup).getPairs tags = .ok refs ∧
        List.Forall₂ (fun (tag : Nat) ref => clipper.mapTag2Index tag ≠ 0 ∧ Matches lookup.content
          (pairs.filter fun p => clipper.mapTag2Index p.tag = clipper.mapTag2Index tag).getLast? ref) tags refs := by
  induction tags generalizing lookup with
  | nil => exact ⟨by simp [TvpReader.written], [], rfl, .nil⟩
  | cons tag tags ih =>
      obtain ⟨present, few⟩ := clipper.index_accepted tag (accepted tag (by simp))
      obtain ⟨position, slot⟩ := Nat.exists_eq_succ_of_ne_zero present
      obtain ⟨ref, after, run, same, matched, later⟩ :=
        get_pair_sound clipper sep pairs behind lookup sound tag position slot (by omega)
      obtain ⟨narrow, refs, runs, others⟩ := ih (fun other member => accepted other (by simp [member])) after later
      have first : (TvpReader.mk clipper sep lookup).getPair tag = .ok (ref, ⟨clipper, sep, after⟩) := by
        simp [TvpReader.getPair, run]
      refine ⟨fun p member => ?_, ref :: refs, ?_, .cons ?_ (same ▸ others)⟩
      · rw [TvpReader.written, first, List.mem_append] at member
        cases member with
        | inl now => exact sound.narrow p now
        | inr afterwards => exact narrow p afterwards
      · simp [TvpReader.getPairs, first, runs]
      · refine ⟨present, ?_⟩
        rw [slot]
        exact matched

end Reads

def foundField (clipper : IntClipper) (tag : Nat) (fields : List Located) : Option Located :=
  (fields.filter fun found => clipper.mapTag2Index found.pair.tag = clipper.mapTag2Index tag).getLast?

def Designates (clipper : IntClipper) (buf : Bytes) (fields : List Located) (tag : Nat) (ref : Option StringRef) : Prop :=
  match foundField clipper tag fields with
  | none => refText buf ref = []
  | some found => ref = some ⟨found.pair.content, found.pair.len⟩ ∧ refText buf ref = found.value

theorem designates_matches (clipper : IntClipper) (sep : UInt8) (buf rest : Bytes) (fields : List Field)
    (split : buf = render sep fields ++ rest) (tag : Nat) (present : clipper.mapTag2Index tag ≠ 0) (ref : Option StringRef)
    (matched : Matches buf ((keptPairs clipper sep 0 fields).filter fun p =>
      clipper.mapTag2Index p.tag = clipper.mapTag2Index tag).getLast? ref) :
    Designates clipper buf (locate sep 0 fields) tag ref := by
  have same : (keptPairs clipper sep 0 fields).filter (fun p => clipper.mapTag2Index p.tag = clipper.mapTag2Index tag) =
      ((locate sep 0 fields).filter fun found =>
        clipper.mapTag2Index found.pair.tag = clipper.mapTag2Index tag).map Located.pair := by
    rw [keptPairs, List.filter_filter, List.filter_map]
    congr 2
    funext found
    by_cases own : clipper.mapTag2Index found.pair.tag = clipper.mapTag2Index tag <;> simp [kept, own, present]
  rw [same, List.getLast?_map] at matched
  rw [Designates, foundField]
  cases last : ((locate sep 0 fields).filter fun found =>
      clipper.mapTag2Index found.pair.tag = clipper.mapTag2Index tag).getLast? with
  | none =>
      rw [last] at matched
      exact matched
  | some found =>
      rw [last] at matched
      have member := List.mem_of_mem_filter (List.mem_of_getLast? last)
      have text := (locate_text sep buf rest 0 fields (by rw [split]; rfl) found member).2
      obtain rfl : ref = some ⟨found.pair.content, found.pair.len⟩ := matched
      exact ⟨rfl, text⟩

theorem set_accepted (clipper : IntClipper) (sep : UInt8) (buf : Bytes) (reader : TvpReader)
    (accepted : (TvpReader.fresh clipper sep).set buf = .ok reader) :
    ∃ size, size ≤ buf.length ∧ reader = ⟨clipper, sep, ⟨buf, size, noWheres clipper, 0⟩⟩ := by
  cases trimmed : trimmedSize buf with
  | error fault => simp [TvpReader.set, TvpReader.fresh, trimmed] at accepted
  | ok size =>
      rw [set_fresh clipper sep buf size trimmed] at accepted
      exact ⟨size, trimmed_within buf size trimmed, (Except.ok.inj accepted).symm⟩

theorem fields_enough (sep : UInt8) (buf : Bytes) (size : Nat) (fields : List Field) (whole : size ≤ buf.length)
    (wellFormed : buf.take size = render sep fields) : fields.length < size + 1 := by
  have few := fields_few sep fields
  rw [← wellFormed, List.length_take] at few
  omega

theorem set_scans (clipper : IntClipper) (sep : UInt8) (buf : Bytes) (size : Nat) (fields : List Field) (whole : size ≤ buf.length)
    (wellFormed : buf.take size = render sep fields) (splits : ∀ field ∈ fields, Splits sep field) :
    (TvpReader.mk clipper sep ⟨buf, size, noWheres clipper, 0⟩).writes = keptPairs clipper sep 0 fields ∧
      ∃ after, scan clipper (step sep) (size + 1) ⟨buf, size, noWheres clipper, 0⟩ = .ok (false, after) ∧ after.content = buf ∧
        after.originalSize ≤ after.lastLookupPosition ∧
        after.alreadySeenTagsCache = (keptPairs clipper sep 0 fields).foldl (place clipper) (noWheres clipper) := by
  obtain ⟨pairs, after, run, same, finished⟩ := scan_fields clipper sep fields splits ⟨buf, size, noWheres clipper, 0⟩ whole
    wellFormed (size + 1) (fields_enough sep buf size fields whole wellFormed)
  have cache := scan_writes clipper (step sep) _ _ _ _ run
  rw [pairs] at cache
  exact ⟨pairs, after, run, same, finished, cache⟩

theorem set_sound (clipper : IntClipper) (sep : UInt8) (buf : Bytes) (size : Nat) (fields : List Field) (whole : size ≤ buf.length)
    (wellFormed : buf.take size = render sep fields) (splits : ∀ field ∈ fields, Splits sep field)
    (narrow : ∀ p ∈ keptPairs clipper sep 0 fields, Narrow p) :
    Sound clipper sep (keptPairs clipper sep 0 fields) ⟨buf, size, noWheres clipper, 0⟩ := by
  obtain ⟨pairs, after, run, same, finished, cache⟩ := set_scans clipper sep buf size fields whole wellFormed splits
  refine ⟨fun p member => narrow p (pairs ▸ member), after, run, same, finished, ?_, fun position inside => ?_⟩
  · rw [cache, placed_length]
    simp [noWheres]
  · rw [cache]
    exact placed_stored clipper _ narrow position inside

theorem kept_pairs_behind (clipper : IntClipper) (sep : UInt8) (buf rest : Bytes) (fields : List Field)
    (split : buf = render sep fields ++ rest) (p : TVPair) (member : p ∈ keptPairs clipper sep 0 fields) : 0 < p.content := by
  obtain ⟨found, inside, rfl⟩ := List.mem_map.mp (List.mem_of_mem_filter member)
  exact (locate_text sep buf rest 0 fields (by rw [split]; rfl) found inside).1

theorem offsets_preserved_iff (clipper : IntClipper) (sep : UInt8) (buf : Bytes) (reader : TvpReader) (fields : List Field)
    (accepted : (TvpReader.fresh clipper sep).set buf = .ok reader)
    (wellFormed : buf.take reader.lookup.originalSize = render sep fields) (splits : ∀ field ∈ fields, Splits sep field) :
    (∀ tags, (∀ tag ∈ tags, tag ∈ clipper.acceptedTags) →
      (∀ p ∈ reader.written tags, Preserved p) ∧
        ∃ refs, reader.getPairs tags = .ok refs ∧ List.Forall₂ (Designates clipper buf (locate sep 0 fields)) tags refs) ↔
      ∀ found ∈ locate sep 0 fields, clipper.mapTag2Index found.pair.tag ≠ 0 →
        found.pair.content < 65536 ∧ found.pair.len < 65536 := by
  obtain ⟨size, whole, rfl⟩ := set_accepted clipper sep buf reader accepted
  have split : buf = render sep fields ++ buf.drop size := by
    rw [← wellFormed]
    exact (List.take_append_drop size buf).symm
  constructor
  · intro preserved found member present
    have log := (set_scans clipper sep buf size fields whole wellFormed splits).1
    have asked := (preserved [clipper.tagMin] (by simpa using clipper.tag_min_accepted)).1 found.pair
    refine (preserved_iff found.pair).mp (asked (List.mem_append_left _ ?_))
    rw [log, keptPairs, List.mem_filter]
    exact ⟨List.mem_map_of_mem member, by simpa [kept] using present⟩
  · intro small tags requested
    have narrow : ∀ p ∈ keptPairs clipper sep 0 fields, Narrow p := by
      intro p member
      obtain ⟨inside, present⟩ := List.mem_filter.mp member
      obtain ⟨found, place, rfl⟩ := List.mem_map.mp inside
      exact small found place (by simpa [kept] using present)
    obtain ⟨preserved, refs, run, matched⟩ := run_sound clipper sep _ (kept_pairs_behind clipper sep buf _ fields split) tags requested
      _ (set_sound clipper sep buf size fields whole wellFormed splits narrow)
    refine ⟨fun p member => (preserved_iff p).mpr (preserved p member), refs, run, List.Forall₂.imp ?_ matched⟩
    rintro tag ref ⟨present, own⟩
    exact designates_matches clipper sep buf _ fields split tag present ref own

theorem offsets_preserved_iff_short :
    let clipper : IntClipper := ⟨[35, 58], by simp, by decide⟩
    let fields : List Field := [([51, 53], [68]), ([53, 56], [97])]
    let reader : TvpReader := ⟨clipper, 1, ⟨render 1 fields, 10, noWheres clipper, 0⟩⟩
    (TvpReader.fresh clipper 1).set (render 1 fields) = .ok reader ∧
      ((∀ tags, (∀ tag ∈ tags, tag ∈ clipper.acceptedTags) →
        (∀ p ∈ reader.written tags, Preserved p) ∧
          ∃ refs, reader.getPairs tags = .ok refs ∧
            List.Forall₂ (Designates clipper (render 1 fields) (locate 1 0 fields)) tags refs) ↔
        ∀ found ∈ locate 1 0 fields, clipper.mapTag2Index found.pair.tag ≠ 0 →
          found.pair.content < 65536 ∧ found.pair.len < 65536) := by
  intro clipper fields reader
  have accepted : (TvpReader.fresh clipper 1).set (render 1 fields) = .ok reader := rfl
  refine ⟨accepted, offsets_preserved_iff clipper 1 (render 1 fields) reader fields accepted (by decide) fun field member => ?_⟩
  simp only [fields, List.mem_cons, List.not_mem_nil, or_false] at member
  cases member with
  | inl first => exact first ▸ ⟨by decide, ⟨35, by decide⟩, by decide⟩
  | inr second => exact second ▸ ⟨by decide, ⟨58, by decide⟩, by decide⟩

def farFields (value : Bytes) : List Field := [([57], value), ([51, 53], [68])]

def farClipper : IntClipper := ⟨[35], by simp, by decide⟩

theorem far_well_formed (value : Bytes) (long : value.length = 65536) (clean : 1 ∉ value) (field : Field)
    (member : field ∈ farFields value) : WellFormed 1 field := by
  simp only [farFields, List.mem_cons, List.not_mem_nil, or_false] at member
  cases member with
  | inl first =>
      have filled : value ≠ [] := List.ne_nil_of_length_pos (by omega)
      subst first
      exact ⟨by simp, .inl (by simp), ⟨filled, clean⟩, fun other => absurd rfl other⟩
  | inr second => exact second ▸ ⟨by decide, by decide, by decide, by decide⟩

theorem far_length (value : Bytes) (long : value.length = 65536) : (render 1 (farFields value)).length = 65544 := by
  simp [farFields, render, renderField, long]

theorem far_pairs (value : Bytes) (long : value.length = 65536) : keptPairs farClipper 1 0 (farFields value) = [⟨35, 65542, 1⟩] := by
  simp only [keptPairs, farFields, locate, renderField, List.length_append, List.length_cons, List.length_nil, long,
    List.map_cons, List.map_nil]
  decide

theorem far_text (value : Bytes) (long : value.length = 65536) :
    refText (render 1 (farFields value)) (some ⟨6, 1⟩) = (value.drop 4).take 1 := by
  have shorter : 1 ≤ (value.drop 4).length := by
    rw [List.length_drop]
    omega
  rw [refText, StringRef.text, farFields, render_cons, renderField, List.append_assoc]
  change (((value ++ [1]) ++ render 1 [([51, 53], [68])]).drop 4).take 1 = _
  rw [List.append_assoc, List.drop_append_of_le_length (by omega), List.take_append_of_le_length shorter]

theorem far_lookup (value : Bytes) (long : value.length = 65536) (clean : 1 ∉ value) :
    ∃ reader, (TvpReader.fresh farClipper 1).set (render 1 (farFields value)) = .ok reader ∧
      ⟨35, 65542, 1⟩ ∈ reader.written [35] ∧ reader.getPairs [35] = .ok [some ⟨6, 1⟩] := by
  have wellFormed := far_well_formed value long clean
  have size := far_length value long
  obtain ⟨trimmed, -⟩ := trimmed_seen 1 (farFields value) wellFormed (by omega)
  rw [show seenFields 1 (farFields value) = farFields value from rfl, size] at trimmed
  obtain ⟨pairs, after, run, same, finished, cache⟩ := set_scans farClipper 1 (render 1 (farFields value)) 65544 (farFields value)
    size.ge (by rw [← size, List.take_length]) fun field member => well_formed_splits 1 field (wellFormed field member)
  rw [far_pairs value long] at pairs cache
  have stored : after.alreadySeenTagsCache = [⟨6, 1⟩] := cache
  refine ⟨_, set_fresh farClipper 1 (render 1 (farFields value)) 65544 trimmed, List.mem_append_left _ ?_, ?_⟩
  · rw [pairs]
    exact List.mem_singleton_self _
  · have first : getPair farClipper (step 1) 35 ⟨render 1 (farFields value), 65544, noWheres farClipper, 0⟩ =
        .ok (found 0 after) := by
      rw [getPair, show farClipper.mapTag2Index (35 : Nat) = 0 + 1 by decide]
      simp only [run, Fallible.ok_bind, Bool.false_eq_true, if_false, Fallible.pure_eq_ok]
    have ref : (found 0 after).1 = some ⟨6, 1⟩ := by
      rw [found, stored]
      rfl
    simp [TvpReader.getPairs, TvpReader.getPair, first, ref]

theorem offsets_wrap :
    let clipper : IntClipper := ⟨[35], by simp, by decide⟩
    let fields : List Field := [([57], List.replicate 65536 97), ([51, 53], [68])]
    (∃ reader, (TvpReader.fresh clipper 1).set (render 1 fields) = .ok reader ∧ ⟨35, 65542, 1⟩ ∈ reader.written [35] ∧
      reader.getPairs [35] = .ok [some ⟨6, 1⟩] ∧ refText (render 1 fields) (some ⟨6, 1⟩) = [97]) ∧
      ¬ Preserved ⟨35, 65542, 1⟩ ∧ lastValue 35 fields = some [68] := by
  obtain ⟨reader, accepted, written, refs⟩ :=
    far_lookup (List.replicate 65536 97) List.length_replicate (by rw [List.mem_replicate]; decide)
  have text := far_text (List.replicate 65536 97) List.length_replicate
  rw [List.drop_replicate, List.take_replicate] at text
  exact ⟨⟨reader, accepted, written, refs, text⟩, fun preserved => absurd preserved.1 (by decide), rfl⟩

end Libx.Tvp

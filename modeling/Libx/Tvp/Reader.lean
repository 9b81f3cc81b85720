import Libx.Tvp.Lookup
import Mathlib.Data.List.Forall2

set_option autoImplicit false

namespace Libx.Tvp

structure TvpReader where
  clipper : IntClipper
  sep : UInt8
  lookup : Lookup

def noWheres (clipper : IntClipper) : List Where := List.replicate clipper.nbEntries ⟨0, 0⟩

-- The checksum field that set looks for: "\1" "10=" eight bytes before the end.
def endsInChecksum (buf : Bytes) : Bool := (buf.drop (buf.length - 8)).take 4 = [1, 49, 48, 61]

-- memcmp(buf + size - 8, ..) reads before a buffer of one to seven bytes.
def trimmedSize (buf : Bytes) : Except Fault Nat :=
  if 0 < buf.length then
    if buf.length < 8 then .error .outOfBuffer
    else .ok (if endsInChecksum buf then buf.length - 7 else buf.length)
  else .ok buf.length

namespace TvpReader

def fresh (clipper : IntClipper) (sep : UInt8) : TvpReader := ⟨clipper, sep, ⟨[], 0, noWheres clipper, 0⟩⟩

def set (reader : TvpReader) (buf : Bytes) : Except Fault TvpReader :=
  if reader.lookup.alreadySeenTagsCache ≠ noWheres reader.clipper then .error .assertion
  else (trimmedSize buf).map fun size => { reader with lookup := { reader.lookup with content := buf, originalSize := size } }

def getPair (reader : TvpReader) (tag : Nat) : Except Fault (Option StringRef × TvpReader) :=
  (Tvp.getPair reader.clipper (step reader.sep) tag reader.lookup).map fun (ref, lookup) => (ref, { reader with lookup })

def getPairs (reader : TvpReader) : List Nat → Except Fault (List (Option StringRef))
  | [] => .ok []
  | tag :: tags => do
      let (ref, reader) ← reader.getPair tag
      let refs ← getPairs reader tags
      return ref :: refs

end TvpReader

def refText (content : Bytes) : Option StringRef → Bytes
  | none => []
  | some ref => ref.text content

structure WellFormed (sep : UInt8) (field : Field) : Prop where
  tag : 61 ∉ field.1 ∧ sep ∉ field.1
  number : field.1.length ≤ 9 ∨ field.1.all isDigit = false
  value : field.2 ≠ [] ∧ sep ∉ field.2
  one : sep ≠ 1 → 1 ∉ field.1 ∧ 1 ∉ field.2

def isChecksum (field : Field) : Bool := field.1 = [49, 48] ∧ field.2.length = 3

def seenFields (sep : UInt8) (fields : List Field) : List Field :=
  if sep = 1 ∧ fields.getLast?.any isChecksum then fields.dropLast else fields

theorem render_append (sep : UInt8) (fields more : List Field) :
    render sep (fields ++ more) = render sep fields ++ render sep more := by
  simp [render]

theorem render_single (sep : UInt8) (field : Field) : render sep [field] = renderField sep field := by simp [render]

theorem split_behind_separator (fields : List Field) (sep : UInt8) (other : sep ≠ 61)
    (clean : ∀ field ∈ fields, sep ∉ field.1 ∧ sep ∉ field.2) (front back : Bytes)
    (same : render sep fields = front ++ sep :: back) : ∃ early late, fields = early ++ late ∧ back = render sep late := by
  induction fields generalizing front with
  | nil => simp [render] at same
  | cons field fields ih =>
      obtain ⟨tagClean, valueClean⟩ := clean field (by simp)
      have body : renderField sep field = (field.1 ++ 61 :: field.2) ++ [sep] := by simp [renderField]
      have absent : sep ∉ field.1 ++ 61 :: field.2 := by simp [tagClean, valueClean, other]
      rw [render_cons, body, List.append_assoc] at same
      rcases List.append_eq_append_iff.mp same with ⟨middle, rfl, inner⟩ | ⟨middle, outer, inner⟩
      · cases middle with
        | nil =>
            refine ⟨[field], fields, rfl, ?_⟩
            simpa using inner.symm
        | cons c middle =>
            have first : c = sep ∧ render sep fields = middle ++ sep :: back := by
              simp only [List.cons_append, List.nil_append, List.cons.injEq] at inner
              exact ⟨inner.1.symm, inner.2⟩
            obtain ⟨early, late, rfl, tail⟩ := ih (fun other member => clean other (by simp [member])) middle first.2
            exact ⟨field :: early, late, rfl, tail⟩
      · cases middle with
        | nil =>
            refine ⟨[field], fields, rfl, ?_⟩
            simpa using inner
        | cons c middle =>
            have first : c = sep := by simpa using (congrArg List.head? inner).symm
            exact absurd (by rw [outer, first]; simp) absent

theorem ends_in_checksum_iff (buf : Bytes) (long : 8 ≤ buf.length) :
    endsInChecksum buf = true ↔ ∃ front a b c d, buf = front ++ [1, 49, 48, 61, a, b, c, d] := by
  have split := (List.take_append_drop (buf.length - 8) buf).symm
  have eight : (buf.drop (buf.length - 8)).length = 8 := by
    rw [List.length_drop]
    omega
  rw [endsInChecksum, decide_eq_true_eq]
  constructor
  · intro marked
    obtain ⟨e, f, g, h, a, b, c, d, shape⟩ : ∃ e f g h a b c d, buf.drop (buf.length - 8) = [e, f, g, h, a, b, c, d] := by
      generalize buf.drop (buf.length - 8) = last at eight
      match last, eight with
      | [e, f, g, h, a, b, c, d], _ => exact ⟨e, f, g, h, a, b, c, d, rfl⟩
    rw [shape] at marked split
    simp only [List.take_succ_cons, List.take_zero, List.cons.injEq, and_true] at marked
    obtain ⟨rfl, rfl, rfl, rfl⟩ := marked
    exact ⟨_, a, b, c, d, split⟩
  · rintro ⟨front, a, b, c, d, rfl⟩
    simp

theorem checksum_alone (fields : List Field) (wellFormed : ∀ field ∈ fields, WellFormed 1 field) (a b c d : UInt8)
    (same : render 1 fields = [49, 48, 61, a, b, c, d]) : ∃ field, fields = [field] ∧ isChecksum field = true := by
  cases fields with
  | nil => simp [render] at same
  | cons field fields =>
      have good := wellFormed field (by simp)
      rw [render_cons, renderField, List.append_assoc, List.cons_append, List.append_assoc] at same
      have tenCut : cut 61 [49, 48, 61, a, b, c, d] = some ([49, 48], [a, b, c, d]) := rfl
      rw [← same, cut_here 61 field.1 _ good.tag.1] at tenCut
      obtain ⟨tag, rest⟩ := Prod.mk.inj (Option.some.inj tenCut)
      have lengths := congrArg List.length rest
      simp only [List.length_append, List.length_cons, List.length_nil] at lengths
      have filled := List.length_pos_of_ne_nil good.value.1
      cases fields with
      | nil =>
          refine ⟨field, rfl, ?_⟩
          simp only [render, List.flatMap_nil, List.length_nil] at lengths
          rw [isChecksum, decide_eq_true_eq]
          exact ⟨tag, by omega⟩
      | cons next fields =>
          have size := field_length 1 next
          rw [render_cons, List.length_append] at lengths
          have nextGood := List.length_pos_of_ne_nil (wellFormed next (by simp)).value.1
          omega

theorem last_checksum (fields : List Field) (marked : fields.getLast?.any isChecksum = true) :
    ∃ early value, fields = early ++ [([49, 48], value)] ∧ value.length = 3 := by
  cases last : fields.getLast? with
  | none => simp [last] at marked
  | some field =>
      rw [last, Option.any_some, isChecksum, decide_eq_true_eq] at marked
      obtain ⟨early, rfl⟩ : ∃ early, fields = early ++ [field] := List.getLast?_eq_some_iff.mp last
      obtain ⟨tag, value⟩ := field
      obtain ⟨rfl, three⟩ := marked
      exact ⟨early, value, rfl, three⟩

theorem checksum_seen (sep : UInt8) (fields : List Field) (wellFormed : ∀ field ∈ fields, WellFormed sep field)
    (long : 8 ≤ (render sep fields).length) :
    endsInChecksum (render sep fields) = true ↔ sep = 1 ∧ fields.getLast?.any isChecksum = true := by
  rw [ends_in_checksum_iff _ long]
  constructor
  · rintro ⟨front, a, b, c, d, same⟩
    have sepOne : sep = 1 := by
      by_contra other
      have member : (1 : UInt8) ∈ render sep fields := by simp [same]
      obtain ⟨field, inside, byte⟩ := List.mem_flatMap.mp member
      have clean := (wellFormed field inside).one other
      simp only [renderField, List.mem_append, List.mem_cons, List.not_mem_nil, or_false] at byte
      rcases byte with inTag | isEqual | inValue | isSep
      · exact clean.1 inTag
      · exact absurd isEqual (by decide)
      · exact clean.2 inValue
      · exact other isSep.symm
    subst sepOne
    obtain ⟨early, late, rfl, back⟩ := split_behind_separator fields 1 (by decide)
      (fun field inside => ⟨(wellFormed field inside).tag.2, (wellFormed field inside).value.2⟩) front _ same
    obtain ⟨field, rfl, checksum⟩ := checksum_alone late (fun other inside => wellFormed other (by simp [inside])) a b c d
      back.symm
    exact ⟨rfl, by simpa using checksum⟩
  · rintro ⟨rfl, marked⟩
    obtain ⟨early, value, rfl, three⟩ := last_checksum fields marked
    obtain ⟨a, b, c, rfl⟩ := List.length_eq_three.mp three
    rw [render_append, render_single] at long ⊢
    rcases List.eq_nil_or_concat early with rfl | ⟨early, previous, rfl⟩
    · simp [render, renderField] at long
    · refine ⟨render 1 early ++ (previous.1 ++ 61 :: previous.2), a, b, c, 1, ?_⟩
      simp [render_append, render_single, renderField]

theorem well_formed_readable (sep : UInt8) (field : Field) (wellFormed : WellFormed sep field) : Readable field.1 := by
  rcases wellFormed.number with short | other
  · exact readable_short field.1 short
  · intro digits
    simp [other] at digits

theorem tag_small (field : Field) (number : field.1.length ≤ 9 ∨ field.1.all isDigit = false) : tagOf field + 1 < 2 ^ 31 := by
  rw [tagOf, numericTag]
  split_ifs with both
  · have short : field.1.length ≤ 9 := number.resolve_right (by simp [both.2])
    have bound := decimal_lt field.1 both.2
    have power : 10 ^ field.1.length ≤ 10 ^ 9 := Nat.pow_le_pow_right (by decide) short
    rw [Option.getD_some]
    omega
  · simp

theorem well_formed_takes (sep : UInt8) (field : Field) (wellFormed : WellFormed sep field) : Takes (step sep) sep field :=
  step_takes sep field wellFormed.tag.1 (well_formed_readable sep field wellFormed) wellFormed.value.2 wellFormed.value.1

theorem trimmed_seen (sep : UInt8) (fields : List Field) (wellFormed : ∀ field ∈ fields, WellFormed sep field)
    (long : 8 ≤ (render sep fields).length) :
    trimmedSize (render sep fields) = .ok (render sep (seenFields sep fields)).length ∧
      ∃ rest, render sep fields = render sep (seenFields sep fields) ++ rest := by
  have marked := checksum_seen sep fields wellFormed long
  rw [trimmedSize, if_pos (by omega), if_neg (by omega)]
  by_cases checksum : endsInChecksum (render sep fields) = true
  · rw [if_pos checksum, seenFields, if_pos (marked.mp checksum)]
    obtain ⟨early, value, rfl, three⟩ := last_checksum fields (marked.mp checksum).2
    have seven : (renderField sep ([49, 48], value)).length = 7 := by
      rw [field_length, three]
      rfl
    rw [List.dropLast_concat, render_append, render_single, List.length_append, seven, Nat.add_sub_cancel]
    exact ⟨rfl, _, rfl⟩
  · rw [if_neg checksum, seenFields, if_neg (mt marked.mpr checksum)]
    exact ⟨rfl, [], (List.append_nil _).symm⟩

theorem trimmed_within (buf : Bytes) (size : Nat) (trimmed : trimmedSize buf = .ok size) : size ≤ buf.length := by
  by_cases filled : 0 < buf.length
  · by_cases short : buf.length < 8
    · simp [trimmedSize, filled, short] at trimmed
    · rw [trimmedSize, if_pos filled, if_neg short] at trimmed
      have same := Except.ok.inj trimmed
      split at same <;> omega
  · rw [trimmedSize, if_neg filled] at trimmed
    exact le_of_eq (Except.ok.inj trimmed).symm

theorem set_fresh (clipper : IntClipper) (sep : UInt8) (buf : Bytes) (size : Nat) (trimmed : trimmedSize buf = .ok size) :
    (TvpReader.fresh clipper sep).set buf = .ok ⟨clipper, sep, ⟨buf, size, noWheres clipper, 0⟩⟩ := by
  simp [TvpReader.set, TvpReader.fresh, trimmed]

theorem get_pairs_ready (clipper : IntClipper) (sep : UInt8) (fields : List Field) (tags : List Nat)
    (accepted : ∀ tag ∈ tags, tag ∈ clipper.acceptedTags) (lookup : Lookup)
    (ready : Ready clipper (step sep) fields lookup) :
    ∃ refs, (TvpReader.mk clipper sep lookup).getPairs tags = .ok refs ∧
      List.Forall₂ (fun tag ref => refText lookup.content ref = (lastValue tag fields).getD []) tags refs := by
  induction tags generalizing lookup with
  | nil => exact ⟨[], rfl, .nil⟩
  | cons tag tags ih =>
      obtain ⟨ref, after, run, text, later, same⟩ := get_pair_ready clipper (step sep) fields lookup ready tag
        (accepted tag (by simp))
      obtain ⟨refs, runs, texts⟩ := ih (fun other member => accepted other (by simp [member])) after later
      refine ⟨some ref :: refs, ?_, .cons text (same ▸ texts)⟩
      simp [TvpReader.getPairs, TvpReader.getPair, run, runs]

theorem last_value_filled (sep : UInt8) (fields : List Field) (wellFormed : ∀ field ∈ fields, WellFormed sep field) (tag : Nat) :
    (lastValue tag fields).getD [] = [] ↔ lastValue tag fields = none := by
  cases last : lastValue tag fields with
  | none => simp
  | some value =>
      have member := List.mem_of_getLast? last
      obtain ⟨field, inside, rfl⟩ := List.mem_map.mp member
      simpa using (wellFormed field (List.mem_of_mem_filter inside)).value.1

theorem get_pairs_last_values (clipper : IntClipper) (positive : ∀ tag ∈ clipper.acceptedTags, 0 < tag) (sep : UInt8)
    (fields : List Field) (wellFormed : ∀ field ∈ fields, WellFormed sep field) (long : 8 ≤ (render sep fields).length)
    (short : (render sep fields).length ≤ 65535) (tags : List Nat) (accepted : ∀ tag ∈ tags, tag ∈ clipper.acceptedTags) :
    ∃ reader refs, (TvpReader.fresh clipper sep).set (render sep fields) = .ok reader ∧ reader.getPairs tags = .ok refs ∧
      List.Forall₂ (fun tag ref =>
        refText (render sep fields) ref = (lastValue tag (seenFields sep fields)).getD [] ∧
          (refText (render sep fields) ref = [] ↔ lastValue tag (seenFields sep fields) = none)) tags refs := by
  obtain ⟨trimmed, rest, split⟩ := trimmed_seen sep fields wellFormed long
  have seenWellFormed : ∀ field ∈ seenFields sep fields, WellFormed sep field := by
    intro field member
    rw [seenFields] at member
    split_ifs at member
    · exact wellFormed field ((List.dropLast_sublist _).subset member)
    · exact wellFormed field member
  have lengths := congrArg List.length split
  rw [List.length_append] at lengths
  have ready := fresh_ready clipper (step sep) sep positive (seenFields sep fields) rest
    (fun field member => well_formed_takes sep field (seenWellFormed field member))
    (fun field member => tag_small field (seenWellFormed field member).number) (by omega)
  rw [← split] at ready
  obtain ⟨refs, run, texts⟩ := get_pairs_ready clipper sep (seenFields sep fields) tags accepted _ ready
  refine ⟨_, refs, set_fresh clipper sep _ _ trimmed, run, texts.imp fun tag ref text => ⟨text, ?_⟩⟩
  rw [text]
  exact last_value_filled sep _ seenWellFormed tag

theorem get_pairs_last_values_repeated :
    let clipper : IntClipper := ⟨[35, 58], by simp, by decide⟩
    let fields : List Field := [([51, 53], [68]), ([53, 56], [97]), ([53, 56], [98]), ([49, 48], [48, 48, 49])]
    ∃ reader refs, (TvpReader.fresh clipper 1).set (render 1 fields) = .ok reader ∧ reader.getPairs [58, 35, 58] = .ok refs ∧
      List.Forall₂ (fun tag ref =>
        refText (render 1 fields) ref = (lastValue tag (seenFields 1 fields)).getD [] ∧
          (refText (render 1 fields) ref = [] ↔ lastValue tag (seenFields 1 fields) = none)) [58, 35, 58] refs := by
  intro clipper fields
  have wellFormed : ∀ field ∈ fields, WellFormed 1 field := by
    intro field member
    simp only [fields, List.mem_cons, List.not_mem_nil, or_false] at member
    rcases member with rfl | rfl | rfl | rfl <;> exact ⟨by decide, by decide, by decide, by decide⟩
  exact get_pairs_last_values clipper (by decide) 1 fields wellFormed (by decide) (by decide) [58, 35, 58] (by decide)

end Libx.Tvp

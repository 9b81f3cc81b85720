import Libx.Tvp.Reader

set_option autoImplicit false

namespace Libx.Tvp

-- tvp_writer::write: the text it hands to func_.
def write (sep : UInt8) (fix8 : Bytes) (tvp : List Field) : Bytes :=
  [56, 61] ++ fix8 ++ [sep] ++ tvp.flatMap fun p => p.1 ++ [61] ++ p.2 ++ [sep]

def tagText (tag : Nat) : Bytes := (Nat.toDigits 10 tag).map fun c => .ofNat c.toNat

def tagFields (pairs : List (Nat × Bytes)) : List Field := pairs.map fun pair => (tagText pair.1, pair.2)

theorem write_renders (sep : UInt8) (fix8 : Bytes) (tvp : List Field) : write sep fix8 tvp = render sep (([56], fix8) :: tvp) := by
  have each : (fun p : Field => p.1 ++ [61] ++ p.2 ++ [sep]) = renderField sep := by
    funext p
    simp [renderField]
  rw [write, each, render, List.flatMap_cons]
  simp [renderField]

theorem digit_byte (c : Char) (digit : c.isDigit = true) :
    (UInt8.ofNat c.toNat).toNat = c.toNat ∧ 48 ≤ c.toNat ∧ c.toNat ≤ 57 := by
  have bounds : 48 ≤ c.toNat ∧ c.toNat ≤ 57 := by
    have words : 48 ≤ c.val ∧ c.val ≤ 57 := by simpa [Char.isDigit] using digit
    exact ⟨UInt32.le_iff_toNat_le.mp words.1, UInt32.le_iff_toNat_le.mp words.2⟩
  exact ⟨UInt8.toNat_ofNat_of_lt' (show c.toNat < 256 by omega), bounds⟩

theorem tag_text_digits (tag : Nat) : (tagText tag).all isDigit = true := by
  rw [List.all_eq_true]
  intro byte member
  obtain ⟨c, inside, rfl⟩ := List.mem_map.mp member
  obtain ⟨exact_, low, high⟩ := digit_byte c (Nat.isDigit_of_mem_toDigits (by decide) (by decide) inside)
  rw [digit_range, exact_]
  exact ⟨low, high⟩

theorem decimal_bytes (text : List Char) (digits : ∀ c ∈ text, c.isDigit = true) (value : Nat) :
    (text.map fun c => UInt8.ofNat c.toNat).foldl (fun value c => 10 * value + (c.toNat - 48)) value =
      Nat.ofDigitChars 10 text value := by
  induction text generalizing value with
  | nil => rfl
  | cons c rest ih =>
      rw [List.map_cons, List.foldl_cons, ih fun d member => digits d (by simp [member]), Nat.ofDigitChars_cons,
        (digit_byte c (digits c (by simp))).1]
      rfl

theorem decimal_tag_text (tag : Nat) : decimal (tagText tag) = tag := by
  rw [decimal, tagText, decimal_bytes _ fun c member => Nat.isDigit_of_mem_toDigits (by decide) (by decide) member]
  exact Nat.ofDigitChars_ten_toDigits

theorem tag_text_number (tag : Nat) : numericTag (tagText tag) = some tag := by
  rw [numericTag, if_pos ⟨by simp [tagText, Nat.toDigits_ne_nil], tag_text_digits tag⟩, decimal_tag_text]

theorem tag_text_clean (tag : Nat) : 61 ∉ tagText tag := by
  intro member
  have digit := List.all_eq_true.mp (tag_text_digits tag) 61 member
  exact absurd digit (by decide)

theorem tag_text_readable (tag : Nat) (small : tag < 2 ^ 31) : Readable (tagText tag) := by
  intro _
  refine ⟨?_, by rw [decimal_tag_text]; exact small⟩
  rw [tagText, List.length_map]
  exact (Nat.length_toDigits_le_iff (by decide) (by decide)).mpr (by omega)

theorem last_written (tag : Nat) (value : Bytes) (first : Field) (pairs : List (Nat × Bytes))
    (distinct : (pairs.map Prod.fst).Nodup) (written : (tag, value) ∈ pairs) :
    lastValue tag (first :: tagFields pairs) = some value := by
  obtain ⟨before, after, rfl⟩ := List.append_of_mem written
  have absent : ∀ pair ∈ after, pair.1 ≠ tag := by
    intro pair member same
    simp only [List.map_append, List.map_cons] at distinct
    have later := (List.nodup_cons.mp (List.nodup_append.mp distinct).2.1).1
    exact later (List.mem_map.mpr ⟨pair, member, same⟩)
  have none_ : (tagFields after).filter (fun field => numericTag field.1 = some tag) = [] := by
    refine List.filter_eq_nil_iff.mpr fun field member => ?_
    obtain ⟨pair, inside, rfl⟩ := List.mem_map.mp member
    simpa [tag_text_number] using absent pair inside
  have split : first :: tagFields (before ++ (tag, value) :: after) =
      (first :: tagFields before) ++ ([(tagText tag, value)] ++ tagFields after) := by
    simp [tagFields]
  rw [split, lastValue, List.filter_append, List.filter_append, none_, List.append_nil, List.map_append]
  simp [tag_text_number]

theorem written_takes (sep : UInt8) (pair : Nat × Bytes) (small : pair.1 < 2 ^ 31) (filled : pair.2 ≠ []) (clean : sep ∉ pair.2) :
    Takes (step sep) sep (tagText pair.1, pair.2) :=
  step_takes sep _ (tag_text_clean pair.1) (tag_text_readable pair.1 small) clean filled

theorem version_takes (sep : UInt8) (fix8 : Bytes) (filled : fix8 ≠ []) (clean : sep ∉ fix8) : Takes (step sep) sep ([56], fix8) :=
  step_takes sep _ (show 61 ∉ [56] by decide) (readable_short [56] (by decide)) clean filled

section Stuck

variable (clipper : IntClipper) (sep : UInt8)

def Stuck (lookup : Lookup) : Prop :=
  lookup.lastLookupPosition < lookup.originalSize ∧ ∃ fault, step sep lookup.lastLookupPosition lookup.ahead = .ok (.error fault)

def Halting (lookup : Lookup) : Prop :=
  ∃ after, scan clipper (step sep) (lookup.originalSize + 1) lookup = .ok (true, after) ∧ Stuck sep after

theorem stuck_halting (lookup : Lookup) (stuck : Stuck sep lookup) : Halting clipper sep lookup := by
  obtain ⟨bound, fault, thrown⟩ := stuck
  refine ⟨lookup, ?_, bound, fault, thrown⟩
  rw [scan, if_pos bound, thrown]
  rfl

theorem get_pairs_halting (tags : List Nat) (accepted : ∀ tag ∈ tags, tag ∈ clipper.acceptedTags) (lookup : Lookup)
    (halting : Halting clipper sep lookup) :
    (TvpReader.mk clipper sep lookup).getPairs tags = .ok (tags.map fun _ => none) := by
  induction tags generalizing lookup with
  | nil => rfl
  | cons tag tags ih =>
      obtain ⟨after, run, stuck⟩ := halting
      obtain ⟨position, slot⟩ := Nat.exists_eq_succ_of_ne_zero (clipper.index_accepted tag (accepted tag (by simp))).1
      have rest := ih (fun other member => accepted other (by simp [member])) after (stuck_halting clipper sep after stuck)
      have thrown : Tvp.getPair clipper (step sep) tag lookup = .ok (none, after) := by
        rw [Tvp.getPair, slot]
        simp only [run, Fallible.ok_bind, if_true]
        rfl
      simp [TvpReader.getPairs, TvpReader.getPair, thrown, rest]

theorem fresh_halting (good : List Field) (takes : ∀ field ∈ good, Takes (step sep) sep field) (tag : Nat) (small : tag < 2 ^ 31)
    (back : Bytes) :
    Halting clipper sep ⟨render sep good ++ (tagText tag ++ 61 :: sep :: back),
      (render sep good ++ (tagText tag ++ 61 :: sep :: back)).length, noWheres clipper, 0⟩ := by
  let bad := tagText tag ++ 61 :: sep :: back
  let fresh : Lookup := ⟨render sep good ++ bad, (render sep good ++ bad).length, noWheres clipper, 0⟩
  have stuck : Stuck sep (fresh.past clipper sep good) := by
    refine ⟨by simp [fresh, bad, Lookup.past], .emptyTag, ?_⟩
    have ahead : (fresh.past clipper sep good).ahead = bad := by
      simp only [Lookup.ahead, Lookup.past, fresh]
      rw [List.take_length, Nat.zero_add, List.drop_left]
    have empty := cut_here sep [] back (by simp)
    rw [List.nil_append] at empty
    rw [ahead, step, stepWith, cut_here 61 (tagText tag) _ (tag_text_clean tag)]
    simp [read_tag_readable _ (tag_text_readable tag small), empty]
  refine ⟨_, ?_, stuck⟩
  have few := fields_few sep good
  have size : fresh.originalSize + 1 = good.length + (fresh.originalSize - good.length + 1) := by
    simp only [fresh, List.length_append]
    omega
  obtain ⟨bound, fault, thrown⟩ := stuck
  have whole : fresh.ahead = render sep good ++ bad := by
    simp only [Lookup.ahead, fresh]
    rw [List.take_length, List.drop_zero]
  change scan clipper (step sep) (fresh.originalSize + 1) fresh = _
  rw [size, scan_past clipper (step sep) sep good takes bad fresh _ whole, scan, if_pos bound, thrown]
  rfl

end Stuck

theorem first_empty (pairs : List (Nat × Bytes)) (empty : ∃ pair ∈ pairs, pair.2 = []) :
    ∃ good tag later, pairs = good ++ (tag, []) :: later ∧ ∀ pair ∈ good, pair.2 ≠ [] := by
  induction pairs with
  | nil => simp at empty
  | cons pair pairs ih =>
      by_cases here : pair.2 = []
      · exact ⟨[], pair.1, pairs, by simp [← here], by simp⟩
      · obtain ⟨good, tag, later, rfl, filled⟩ := ih (by simpa [here] using empty)
        exact ⟨pair :: good, tag, later, rfl, by simpa [here] using filled⟩

theorem written_tags (clipper : IntClipper) (pairs : List (Nat × Bytes)) (accepted : ∀ pair ∈ pairs, pair.1 ∈ clipper.acceptedTags)
    (tags : List Nat) (written : ∀ tag ∈ tags, tag ∈ pairs.map Prod.fst) : ∀ tag ∈ tags, tag ∈ clipper.acceptedTags := by
  intro tag member
  obtain ⟨pair, inside, rfl⟩ := List.mem_map.mp (written tag member)
  exact accepted pair inside

theorem set_written (clipper : IntClipper) (sep : UInt8) (text : Bytes) (long : 8 ≤ text.length)
    (noChecksum : endsInChecksum text = false) :
    (TvpReader.fresh clipper sep).set text = .ok ⟨clipper, sep, ⟨text, text.length, noWheres clipper, 0⟩⟩ := by
  refine set_fresh clipper sep text text.length ?_
  rw [trimmedSize, if_pos (by omega), if_neg (by omega), noChecksum]
  rfl

theorem tag_fields_take (sep : UInt8) (fix8 : Bytes) (version : fix8 ≠ [] ∧ sep ∉ fix8) (pairs : List (Nat × Bytes))
    (small : ∀ pair ∈ pairs, pair.1 < 2 ^ 31) (filled : ∀ pair ∈ pairs, pair.2 ≠ []) (clean : ∀ pair ∈ pairs, sep ∉ pair.2) :
    ∀ field ∈ ([56], fix8) :: tagFields pairs, Takes (step sep) sep field := by
  intro field member
  rcases List.mem_cons.mp member with rfl | later
  · exact version_takes sep fix8 version.1 version.2
  · obtain ⟨pair, inside, rfl⟩ := List.mem_map.mp later
    exact written_takes sep pair (small pair inside) (filled pair inside) (clean pair inside)

section Written

variable (clipper : IntClipper) (sep : UInt8) (fix8 : Bytes) (version : fix8 ≠ [] ∧ sep ∉ fix8) (pairs : List (Nat × Bytes))
variable (accepted : ∀ pair ∈ pairs, pair.1 ∈ clipper.acceptedTags) (clean : ∀ pair ∈ pairs, sep ∉ pair.2)
variable (tags : List Nat) (written : ∀ tag ∈ tags, tag ∈ pairs.map Prod.fst)
include version accepted clean written

theorem filled_read_back (positive : ∀ tag ∈ clipper.acceptedTags, 0 < tag) (distinct : (pairs.map Prod.fst).Nodup)
    (filled : ∀ pair ∈ pairs, pair.2 ≠ [])
    (short : (write sep fix8 (tagFields pairs)).length ≤ 65535) :
    ∃ refs, (TvpReader.mk clipper sep ⟨write sep fix8 (tagFields pairs), (write sep fix8 (tagFields pairs)).length,
        noWheres clipper, 0⟩).getPairs tags = .ok refs ∧
      List.Forall₂ (fun tag ref => ∀ value, (tag, value) ∈ pairs → refText (write sep fix8 (tagFields pairs)) ref = value)
        tags refs := by
  have intTag (pair : Nat × Bytes) (member : pair ∈ pairs) : pair.1 + 10 < 2 ^ 31 := clipper.ints _ (accepted pair member)
  rw [write_renders] at short ⊢
  have takes := tag_fields_take sep fix8 version pairs (fun pair inside => by have bound := intTag pair inside; omega) filled clean
  have small : ∀ field ∈ ([56], fix8) :: tagFields pairs, tagOf field + 1 < 2 ^ 31 := by
    intro field member
    rcases List.mem_cons.mp member with rfl | later
    · exact tag_small _ (.inl (show [56].length ≤ 9 by decide))
    · obtain ⟨pair, inside, rfl⟩ := List.mem_map.mp later
      have bound := intTag pair inside
      rw [tagOf, tag_text_number, Option.getD_some]
      omega
  have ready := fresh_ready clipper (step sep) sep positive _ [] takes small (by omega)
  rw [List.append_nil] at ready
  obtain ⟨refs, run, texts⟩ := get_pairs_ready clipper sep _ tags (written_tags clipper pairs accepted tags written) _ ready
  refine ⟨refs, run, texts.imp fun tag ref text value member => ?_⟩
  rw [text, last_written tag value _ pairs distinct member]
  rfl

theorem empty_read_back (empty : ∃ pair ∈ pairs, pair.2 = []) :
    (TvpReader.mk clipper sep ⟨write sep fix8 (tagFields pairs), (write sep fix8 (tagFields pairs)).length,
        noWheres clipper, 0⟩).getPairs tags = .ok (tags.map fun _ => none) := by
  obtain ⟨good, tag, later, rfl, filled⟩ := first_empty pairs empty
  have intTag (pair : Nat × Bytes) (member : pair ∈ good ++ (tag, []) :: later) : pair.1 < 2 ^ 31 := by
    have bound := clipper.ints _ (accepted pair member)
    omega
  have takes := tag_fields_take sep fix8 version good (fun pair inside => intTag pair (by simp [inside])) filled
    fun pair inside => clean pair (by simp [inside])
  have halting := fresh_halting clipper sep (([56], fix8) :: tagFields good) takes tag (intTag (tag, []) (by simp))
    (render sep (tagFields later))
  have text : write sep fix8 (tagFields (good ++ (tag, []) :: later)) =
      render sep (([56], fix8) :: tagFields good) ++ (tagText tag ++ 61 :: sep :: render sep (tagFields later)) := by
    simp [write_renders, tagFields, render_cons, render_append, renderField]
  rw [text]
  exact get_pairs_halting clipper sep tags (written_tags clipper _ accepted tags written) _ halting

end Written

theorem write_read_back (clipper : IntClipper) (positive : ∀ tag ∈ clipper.acceptedTags, 0 < tag) (sep : UInt8) (fix8 : Bytes)
    (version : fix8 ≠ [] ∧ sep ∉ fix8) (pairs : List (Nat × Bytes)) (accepted : ∀ pair ∈ pairs, pair.1 ∈ clipper.acceptedTags)
    (clean : ∀ pair ∈ pairs, sep ∉ pair.2) (distinct : (pairs.map Prod.fst).Nodup)
    (long : 8 ≤ (write sep fix8 (tagFields pairs)).length) (short : (write sep fix8 (tagFields pairs)).length ≤ 65535)
    (noChecksum : endsInChecksum (write sep fix8 (tagFields pairs)) = false)
    (tags : List Nat) (written : ∀ tag ∈ tags, tag ∈ pairs.map Prod.fst) :
    ∃ reader refs, (TvpReader.fresh clipper sep).set (write sep fix8 (tagFields pairs)) = .ok reader ∧
      reader.getPairs tags = .ok refs ∧
      ((∀ pair ∈ pairs, pair.2 ≠ []) →
        List.Forall₂ (fun tag ref => ∀ value, (tag, value) ∈ pairs → refText (write sep fix8 (tagFields pairs)) ref = value)
          tags refs) ∧
      ((∃ pair ∈ pairs, pair.2 = []) →
        List.Forall₂ (fun _ ref => refText (write sep fix8 (tagFields pairs)) ref = []) tags refs) := by
  have stored := set_written clipper sep _ long noChecksum
  by_cases empty : ∃ pair ∈ pairs, pair.2 = []
  · refine ⟨_, _, stored, empty_read_back clipper sep fix8 version pairs accepted clean tags written empty,
      fun filled => ?_, fun _ => ?_⟩
    · obtain ⟨pair, member, none_⟩ := empty
      exact absurd none_ (filled pair member)
    · exact List.forall₂_map_right_iff.mpr (List.forall₂_same.mpr fun _ _ => rfl)
  · have filled : ∀ pair ∈ pairs, pair.2 ≠ [] := fun pair member none_ => empty ⟨pair, member, none_⟩
    obtain ⟨refs, run, texts⟩ := filled_read_back clipper sep fix8 version pairs accepted clean tags written positive distinct
      filled short
    exact ⟨_, refs, stored, run, fun _ => texts, fun other => absurd other empty⟩

theorem write_read_back_order :
    let clipper : IntClipper := ⟨[9, 35], by simp, by decide⟩
    let pairs : List (Nat × Bytes) := [(9, [54]), (35, [68])]
    ∃ reader refs, (TvpReader.fresh clipper 59).set (write 59 [70] (tagFields pairs)) = .ok reader ∧
      reader.getPairs [35, 9, 35] = .ok refs ∧
      ((∀ pair ∈ pairs, pair.2 ≠ []) →
        List.Forall₂ (fun tag ref => ∀ value, (tag, value) ∈ pairs → refText (write 59 [70] (tagFields pairs)) ref = value)
          [35, 9, 35] refs) ∧
      ((∃ pair ∈ pairs, pair.2 = []) →
        List.Forall₂ (fun _ ref => refText (write 59 [70] (tagFields pairs)) ref = []) [35, 9, 35] refs) := by
  intro clipper pairs
  exact write_read_back clipper (by decide) 59 [70] (by decide) pairs (by decide) (by decide) (by decide) (by decide) (by decide)
    (by decide) [35, 9, 35] (by decide)

theorem write_empty_value_lost :
    let clipper : IntClipper := ⟨[9, 35], by simp, by decide⟩
    let text := write 59 [70] (tagFields [(9, []), (35, [68])])
    8 ≤ text.length ∧ endsInChecksum text = false ∧
      ((TvpReader.fresh clipper 59).set text).bind (fun reader => reader.getPairs [35]) = .ok [none] ∧
      refText text none ≠ [68] := by
  decide

end Libx.Tvp

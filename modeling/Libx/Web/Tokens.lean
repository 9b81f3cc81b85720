import Libx.Web.Answer

set_option autoImplicit false

namespace Libx.Web

open Url Fallible

-- tokenize with a token that keeps the two positions; data may be longer than len.
def tokenizeRanges (separator : UInt8) (data : Bytes) (len : Nat) : Nat → UInt16 → Nat → Except Fault (List (Nat × Nat))
  | 0, _, _ => .error .outOfFuel
  | fuel + 1, i, tagPos =>
      if i.toNat < len then
        if data.getD i.toNat 0 = separator then do
          let rest ← tokenizeRanges separator data len fuel (i + 1) (i.toNat + 1)
          return (tagPos, i.toNat) :: rest
        else tokenizeRanges separator data len fuel (i + 1) tagPos
      else if tagPos ≠ len then .ok [(tagPos, len)]
      else .ok []

def slice (data : Bytes) (range : Nat × Nat) : Bytes := (data.drop range.1).take (range.2 - range.1)

structure Rebuilds (separator : UInt8) (data : Bytes) (ranges : List (Nat × Nat)) : Prop where
  inside : ∀ range ∈ ranges, range.1 ≤ range.2 ∧ range.2 ≤ data.length
  joined : [separator].intercalate (ranges.map (slice data)) ++ (if data.getLast? = some separator then [separator] else []) = data
  apart : ∀ range ∈ ranges, separator ∉ slice data range

section Joined

variable (separator : UInt8)

theorem tokens_nonempty (current rest : Bytes) (left : current ++ rest ≠ []) : tokens separator current rest ≠ [] := by
  intro nothing
  have head := tokens_head separator current rest
  rw [nothing, if_neg left] at head
  cases head

theorem tokens_apart (current rest : Bytes) (free : separator ∉ current) : ∀ token ∈ tokens separator current rest, separator ∉ token := by
  induction rest generalizing current with
  | nil =>
      by_cases empty : current = []
      · simp [tokens, empty]
      · simpa [tokens, empty] using free
  | cons c rest ih =>
      rw [tokens]
      by_cases same : c = separator
      · rw [if_pos same]
        exact List.forall_mem_cons.mpr ⟨free, ih [] List.not_mem_nil⟩
      · rw [if_neg same]
        refine ih (current ++ [c]) fun member => ?_
        rcases List.mem_append.mp member with before | last
        · exact free before
        · exact same (List.mem_singleton.mp last).symm

theorem tokens_joined (current rest : Bytes) (free : separator ∉ current) :
    [separator].intercalate (tokens separator current rest) ++
      (if (current ++ rest).getLast? = some separator then [separator] else []) = current ++ rest := by
  induction rest generalizing current with
  | nil =>
      have unended : ¬ (current ++ []).getLast? = some separator := fun last =>
        free (by simpa using List.mem_of_getLast? last)
      rw [if_neg unended]
      by_cases empty : current = []
      · simp [tokens, empty]
      · simp [tokens, empty]
  | cons c rest ih =>
      rw [tokens]
      by_cases same : c = separator
      · rw [if_pos same]
        subst same
        cases rest with
        | nil => simp [tokens]
        | cons next rest =>
            have later := ih [] List.not_mem_nil
            rw [List.nil_append] at later
            have ended : (current ++ c :: next :: rest).getLast? = (next :: rest).getLast? := by
              simp [List.getLast?_append, List.getLast?_cons]
            cases more : tokens c [] (next :: rest) with
            | nil => exact absurd more (tokens_nonempty c [] (next :: rest) (by simp))
            | cons token others =>
                rw [more] at later
                rw [List.intercalate_cons_cons, ended, List.append_assoc, List.append_assoc, later]
                simp
      · have kept : separator ∉ current ++ [c] := by
          simp only [List.mem_append, List.mem_singleton, not_or]
          exact ⟨free, fun other => same other.symm⟩
        rw [if_neg same, List.append_cons current c rest, ih (current ++ [c]) kept]

end Joined

section Ranges

variable (separator : UInt8)

theorem slice_front (front rest : Bytes) (tagPos : Nat) (behind : tagPos ≤ front.length) :
    slice (front ++ rest) (tagPos, front.length) = front.drop tagPos := by
  rw [slice, List.drop_append_of_le_length behind, List.take_append_of_le_length (by simp), List.take_of_length_le (by simp)]

structure Reports (front rest : Bytes) (tagPos : Nat) (ranges : List (Nat × Nat)) : Prop where
  strings : ranges.map (slice (front ++ rest)) = tokens separator (front.drop tagPos) rest
  bounds : ∀ range ∈ ranges, range.1 ≤ range.2 ∧ range.2 ≤ (front ++ rest).length

theorem reports_end (front : Bytes) (tagPos : Nat) (behind : tagPos ≤ front.length) :
    Reports separator front [] tagPos (if tagPos ≠ front.length then [(tagPos, front.length)] else []) := by
  by_cases whole : tagPos = front.length
  · rw [if_neg (not_not.mpr whole)]
    exact ⟨by simp [tokens, whole], by simp⟩
  · have left : front.drop tagPos ≠ [] := fun nothing => whole (Nat.le_antisymm behind (List.drop_eq_nil_iff.mp nothing))
    have last := slice_front front [] tagPos behind
    rw [if_pos whole]
    exact ⟨by rw [List.map_singleton, last, tokens, if_neg left], by simpa using behind⟩

theorem Reports.token {front rest : Bytes} {ranges : List (Nat × Nat)} {tagPos : Nat}
    (reports : Reports separator (front ++ [separator]) rest (front.length + 1) ranges) (behind : tagPos ≤ front.length) :
    Reports separator front (separator :: rest) tagPos ((tagPos, front.length) :: ranges) := by
  have nothing : (front ++ [separator]).drop (front.length + 1) = [] := List.drop_of_length_le (by simp)
  refine ⟨?_, List.forall_mem_cons.mpr ⟨⟨behind, by simp⟩, ?_⟩⟩
  · have strings := reports.strings
    rw [nothing, List.append_assoc, List.singleton_append] at strings
    rw [List.map_cons, slice_front front _ tagPos behind, strings, tokens, if_pos rfl]
  · have bounds := reports.bounds
    rwa [List.append_assoc, List.singleton_append] at bounds

theorem Reports.character {front rest : Bytes} {ranges : List (Nat × Nat)} {tagPos : Nat} {c : UInt8}
    (reports : Reports separator (front ++ [c]) rest tagPos ranges) (behind : tagPos ≤ front.length) (other : c ≠ separator) :
    Reports separator front (c :: rest) tagPos ranges := by
  obtain ⟨strings, bounds⟩ := reports
  rw [List.append_assoc, List.singleton_append] at strings bounds
  rw [List.drop_append_of_le_length behind] at strings
  exact ⟨by rw [strings, tokens, if_neg other], bounds⟩

theorem ranges_reported (front rest beyond : Bytes) (fuel : Nat) (i : UInt16) (tagPos : Nat) (place : i.toNat = front.length)
    (behind : tagPos ≤ front.length) (short : (front ++ rest).length < 65536) (enough : rest.length < fuel) :
    ∃ ranges, tokenizeRanges separator (front ++ rest ++ beyond) (front ++ rest).length fuel i tagPos = .ok ranges ∧
      Reports separator front rest tagPos ranges := by
  induction rest generalizing front fuel i tagPos with
  | nil =>
      obtain ⟨fuel, rfl⟩ := Nat.exists_eq_succ_of_ne_zero (Nat.ne_of_gt enough)
      have atEnd : ¬ i.toNat < front.length := by simp [place]
      refine ⟨_, ?_, reports_end separator front tagPos behind⟩
      rw [List.append_nil, tokenizeRanges, if_neg atEnd]
      split <;> rfl
  | cons c rest ih =>
      obtain ⟨fuel, rfl⟩ := Nat.exists_eq_succ_of_ne_zero (Nat.ne_of_gt (Nat.lt_of_le_of_lt (Nat.zero_le _) enough))
      have inside : i.toNat < (front ++ c :: rest).length := by simp [place]
      have here : (front ++ c :: rest ++ beyond).getD i.toNat 0 = c := by simp [place]
      have cut : front ++ c :: rest = (front ++ [c]) ++ rest := by simp
      have longer : (front ++ [c]).length = front.length + 1 := List.length_append
      have less : rest.length < fuel := Nat.lt_of_succ_lt_succ enough
      have next : (i + 1).toNat = (front ++ [c]).length := by
        rw [List.length_append, List.length_cons] at short
        rw [next_place i front.length place (by omega), longer]
      rw [tokenizeRanges, if_pos inside, here]
      rw [cut] at short ⊢
      by_cases same : c = separator
      · obtain ⟨ranges, reported, reports⟩ := ih (front ++ [c]) fuel (i + 1) (i.toNat + 1) next (place ▸ Nat.le_of_eq longer.symm) short less
        rw [if_pos same, reported]
        subst same
        rw [place] at reports ⊢
        exact ⟨_, rfl, reports.token c behind⟩
      · obtain ⟨ranges, reported, reports⟩ := ih (front ++ [c]) fuel (i + 1) tagPos next (longer ▸ Nat.le_succ_of_le behind) short less
        rw [if_neg same]
        exact ⟨ranges, reported, reports.character separator behind same⟩

theorem ranges_rebuild (data beyond : Bytes) (short : data.length < 65536) :
    ∃ ranges, tokenizeRanges separator (data ++ beyond) data.length (data.length + 1) 0 0 = .ok ranges ∧
      Rebuilds separator data ranges := by
  obtain ⟨ranges, reported, strings, bounds⟩ :=
    ranges_reported separator [] data beyond (data.length + 1) 0 0 rfl (Nat.le_refl 0) short (Nat.lt_succ_self _)
  rw [List.nil_append] at reported strings bounds
  refine ⟨ranges, reported, bounds, ?_, fun range member => ?_⟩
  · rw [strings]
    exact tokens_joined separator [] data List.not_mem_nil
  · refine tokens_apart separator [] data List.not_mem_nil _ ?_
    rw [← List.drop_nil (i := 0), ← strings]
    exact List.mem_map_of_mem member

-- i is below 65536 for good, whatever has been read.
theorem ranges_forever (data : Bytes) (len : Nat) (long : 65536 ≤ len) (fuel : Nat) (i : UInt16) (tagPos : Nat) :
    tokenizeRanges separator data len fuel i tagPos = .error .outOfFuel := by
  induction fuel generalizing i tagPos with
  | zero => rfl
  | succ fuel ih =>
      have inside : i.toNat < len := Nat.lt_of_lt_of_le i.toNat_lt long
      rw [tokenizeRanges, if_pos inside, ih, ih]
      split <;> rfl

end Ranges

theorem tokenize_slices (separator : UInt8) (data : Bytes) (short : data.length < 65536) :
    ∃ ranges, tokenizeRanges separator data data.length (data.length + 1) 0 0 = .ok ranges ∧
      tokenize separator data (data.length + 1) 0 0 = .ok (ranges.map (slice data)) := by
  obtain ⟨ranges, reported, strings, -⟩ :=
    ranges_reported separator [] data [] (data.length + 1) 0 0 rfl (Nat.le_refl 0) short (Nat.lt_succ_self _)
  have tokenized := tokenize_tokens separator [] data (data.length + 1) 0 0 rfl (Nat.le_refl 0) short
  rw [if_pos (Nat.lt_succ_self _)] at tokenized
  rw [List.nil_append] at reported strings tokenized
  rw [List.append_nil] at reported
  exact ⟨ranges, reported, by rw [tokenized, strings]⟩

theorem tokenize_rebuilds_iff (separator : UInt8) (data : Bytes) (len : Nat) (allocated : len ≤ data.length) :
    (∃ fuel ranges, tokenizeRanges separator data len fuel 0 0 = .ok ranges ∧ Rebuilds separator (data.take len) ranges) ↔
      len < 65536 := by
  constructor
  · rintro ⟨fuel, ranges, reported, -⟩
    by_contra long
    rw [ranges_forever separator data len (Nat.le_of_not_lt long)] at reported
    cases reported
  · intro short
    have size : (data.take len).length = len := by rw [List.length_take, Nat.min_eq_left allocated]
    obtain ⟨ranges, reported, rebuilds⟩ := ranges_rebuild separator (data.take len) (data.drop len) (size.symm ▸ short)
    rw [List.take_append_drop, size] at reported
    exact ⟨len + 1, ranges, reported, rebuilds⟩

theorem tokenize_rebuilds_line : ∃ fuel ranges, tokenizeRanges 32 [71, 69, 84, 32, 47, 32] 6 fuel 0 0 = .ok ranges ∧
    Rebuilds 32 ([71, 69, 84, 32, 47, 32].take 6) ranges :=
  (tokenize_rebuilds_iff 32 [71, 69, 84, 32, 47, 32] 6 (by decide)).mpr (by decide)

theorem tokenize_never_ends : ¬ ∃ fuel ranges, tokenizeRanges 32 (List.replicate 65536 97) 65536 fuel 0 0 = .ok ranges ∧
    Rebuilds 32 ((List.replicate 65536 97).take 65536) ranges := by
  rintro ⟨fuel, ranges, reported, -⟩
  rw [ranges_forever 32 _ 65536 (Nat.le_refl _)] at reported
  cases reported

end Libx.Web

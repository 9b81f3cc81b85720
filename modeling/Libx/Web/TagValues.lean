import Libx.Web.Request
import Mathlib.Data.List.Basic

set_option autoImplicit false

namespace Libx.Web

open Url Fallible

structure Triple where
  begin_ : Nat
  equal : Nat
  end_ : Nat
deriving DecidableEq, Repr

-- The two loops of tokenize_tag_val with a callback that keeps its arguments:
-- what they have reported after so many steps.
mutual
def reportTags (separator : UInt8) (data : Bytes) (len : UInt16) : Nat → UInt16 → Nat → Nat → List Triple
  | 0, _, _, _ => []
  | fuel + 1, i, tagPos, valPos =>
      if i < len then
        if data.getD i.toNat 0 = byte '=' then reportVal separator data len fuel i tagPos i.toNat
        else reportTags separator data len fuel (i + 1) tagPos valPos
      else [⟨tagPos, valPos, len.toNat⟩]
def reportVal (separator : UInt8) (data : Bytes) (len : UInt16) : Nat → UInt16 → Nat → Nat → List Triple
  | 0, _, _, _ => []
  | fuel + 1, i, tagPos, valPos =>
      if i < len then
        if data.getD i.toNat 0 = separator then
          ⟨tagPos, valPos, i.toNat⟩ :: reportTags separator data len fuel (i + 1) (i.toNat + 1) valPos
        else reportVal separator data len fuel (i + 1) tagPos valPos
      else reportTags separator data len fuel (i + 1) tagPos valPos
end

def Triple.Valid (len : Nat) (triple : Triple) : Prop :=
  triple.begin_ ≤ triple.equal ∧ triple.equal < triple.end_ ∧ triple.end_ ≤ len

instance (len : Nat) (triple : Triple) : Decidable (triple.Valid len) := inferInstanceAs (Decidable (_ ∧ _ ∧ _))

def Behind (separator : UInt8) (before : Bytes) : Prop := byte '=' ∈ before ++ [separator]

def Followed (separator : UInt8) (query : Bytes) : Prop :=
  ∀ before after, query = before ++ separator :: after → Behind separator before → byte '=' ∈ after

def Stops (separator : UInt8) (query : Bytes) : Prop :=
  ∃ before after, query = before ++ separator :: after ∧ Behind separator before

structure InOrder (separator : UInt8) (query : Bytes) : Prop where
  present : query ≠ []
  followed : Followed separator query
  -- i would wrap to 0 behind the last value.
  longest : query.length = 65535 → ¬ Stops separator query

section Reports

variable (separator : UInt8) (data : Bytes) (len : UInt16)

def TagsValid (i : UInt16) (tagPos valPos : Nat) : Prop :=
  ∀ fuel, ∀ triple ∈ reportTags separator data len fuel i tagPos valPos, triple.Valid len.toNat

def ValValid (i : UInt16) (tagPos valPos : Nat) : Prop :=
  ∀ fuel, ∀ triple ∈ reportVal separator data len fuel i tagPos valPos, triple.Valid len.toNat

theorem all_fuel (property : Nat → Prop) (start : property 0) : (∀ fuel, property fuel) ↔ ∀ fuel, property (fuel + 1) := by
  constructor
  · exact fun all fuel => all (fuel + 1)
  · intro later fuel
    cases fuel with
    | zero => exact start
    | succ fuel => exact later fuel

theorem tags_valid_step (i : UInt16) (tagPos valPos : Nat) :
    TagsValid separator data len i tagPos valPos ↔
      if i < len then
        if data.getD i.toNat 0 = byte '=' then ValValid separator data len i tagPos i.toNat
        else TagsValid separator data len (i + 1) tagPos valPos
      else Triple.Valid len.toNat ⟨tagPos, valPos, len.toNat⟩ := by
  rw [TagsValid, all_fuel _ (by simp [reportTags])]
  simp only [reportTags]
  split
  case isTrue =>
    split
    case isTrue => exact Iff.rfl
    case isFalse => exact Iff.rfl
  case isFalse => simp

theorem val_valid_step (i : UInt16) (tagPos valPos : Nat) :
    ValValid separator data len i tagPos valPos ↔
      if i < len then
        if data.getD i.toNat 0 = separator then
          Triple.Valid len.toNat ⟨tagPos, valPos, i.toNat⟩ ∧ TagsValid separator data len (i + 1) (i.toNat + 1) valPos
        else ValValid separator data len (i + 1) tagPos valPos
      else TagsValid separator data len (i + 1) tagPos valPos := by
  rw [ValValid, all_fuel _ (by simp [reportVal])]
  simp only [reportVal]
  split
  case isTrue =>
    split
    case isTrue =>
      simp only [List.forall_mem_cons, forall_and, forall_const]
      exact Iff.rfl
    case isFalse => exact Iff.rfl
  case isFalse => exact Iff.rfl

end Reports

section Followed

variable (separator : UInt8)

def ClosedBy (query : Bytes) : Prop := ∀ before after, query = before ++ separator :: after → byte '=' ∈ after

theorem followed_cons (c : UInt8) (rest : Bytes) (other : c ≠ byte '=') : Followed separator (c :: rest) ↔ Followed separator rest := by
  have same (before : Bytes) : Behind separator (c :: before) ↔ Behind separator before := by
    simp [Behind, Ne.symm other]
  constructor
  · intro followed before after split behind
    exact followed (c :: before) after (by simp [split]) ((same before).mpr behind)
  · intro followed before after split behind
    cases before with
    | nil =>
        obtain ⟨rfl, -⟩ := List.cons.inj split
        exact absurd (List.mem_singleton.mp behind).symm other
    | cons first before =>
        obtain ⟨rfl, rest_⟩ := List.cons.inj split
        exact followed before after rest_ ((same before).mp behind)

theorem followed_differs (rest : Bytes) (followed : Followed separator rest) (equal : byte '=' ∈ rest) : separator ≠ byte '=' := by
  rintro rfl
  obtain ⟨after, before, split, last⟩ := List.eq_append_cons_of_mem (List.mem_reverse.mpr equal)
  have turned : rest = before.reverse ++ byte '=' :: after.reverse := by
    rw [← List.reverse_reverse rest, split]
    simp
  exact last (List.mem_reverse.mp (followed before.reverse after.reverse turned (by simp [Behind])))

theorem followed_equal (rest : Bytes) :
    Followed separator (byte '=' :: rest) ↔ separator ≠ byte '=' ∧ ClosedBy separator rest := by
  constructor
  · intro followed
    refine ⟨followed_differs separator _ followed (by simp), fun before after split => ?_⟩
    exact followed (byte '=' :: before) after (by simp [split]) (by simp [Behind])
  · rintro ⟨differs, closed⟩ before after split -
    cases before with
    | nil => exact absurd (List.cons.inj split).1.symm differs
    | cons first before => exact closed before after (List.cons.inj split).2

theorem closed_by_cons (c : UInt8) (rest : Bytes) (other : c ≠ separator) : ClosedBy separator (c :: rest) ↔ ClosedBy separator rest := by
  constructor
  · intro closed before after split
    exact closed (c :: before) after (by simp [split])
  · intro closed before after split
    cases before with
    | nil => exact absurd (List.cons.inj split).1 other
    | cons first before => exact closed before after (List.cons.inj split).2

theorem closed_by_separator (rest : Bytes) (differs : separator ≠ byte '=') :
    ClosedBy separator (separator :: rest) ↔ byte '=' ∈ rest ∧ Followed separator rest := by
  constructor
  · intro closed
    refine ⟨closed [] rest rfl, fun before after split _ => ?_⟩
    exact closed (separator :: before) after (by simp [split])
  · rintro ⟨equal, followed⟩ before after split
    cases before with
    | nil => exact (List.cons.inj split).2 ▸ equal
    | cons first before =>
        have cut := (List.cons.inj split).2
        rw [cut] at equal
        rcases List.mem_append.mp equal with early | late
        · exact followed before after cut (List.mem_append_left _ early)
        · exact (List.mem_cons.mp late).resolve_left (Ne.symm differs)

end Followed

section Read

variable (separator : UInt8) (data : Bytes) (size : data.length < 65536)
include size

theorem place_value (n : Nat) (inside : n ≤ data.length) : (UInt16.ofNat n).toNat = n :=
  UInt16.toNat_ofNat_of_lt' (Nat.lt_of_le_of_lt inside size)

theorem place_before (n : Nat) (inside : n ≤ data.length) : UInt16.ofNat n < .ofNat data.length ↔ n < data.length := by
  rw [UInt16.lt_iff_toNat_lt, place_value data size n inside, place_value data size _ (Nat.le_refl _)]

theorem tags_read (front rest : Bytes) (c : UInt8) (cut : data = front ++ c :: rest) (tagPos valPos : Nat) :
    TagsValid separator data (.ofNat data.length) (.ofNat front.length) tagPos valPos ↔
      if c = byte '=' then ValValid separator data (.ofNat data.length) (.ofNat front.length) tagPos front.length
      else TagsValid separator data (.ofNat data.length) (.ofNat (front ++ [c]).length) tagPos valPos := by
  have inside : front.length < data.length := by simp [cut]
  have value := place_value data size front.length (Nat.le_of_lt inside)
  have here : data.getD front.length 0 = c := by simp [cut]
  rw [tags_valid_step, if_pos ((place_before data size _ (Nat.le_of_lt inside)).mpr inside), value, here, List.length_append,
    List.length_singleton, UInt16.ofNat_add]
  rfl

theorem val_read (front rest : Bytes) (c : UInt8) (cut : data = front ++ c :: rest) (tagPos valPos : Nat) :
    ValValid separator data (.ofNat data.length) (.ofNat front.length) tagPos valPos ↔
      if c = separator then
        (tagPos ≤ valPos ∧ valPos < front.length) ∧
          TagsValid separator data (.ofNat data.length) (.ofNat (front ++ [c]).length) (front.length + 1) valPos
      else ValValid separator data (.ofNat data.length) (.ofNat (front ++ [c]).length) tagPos valPos := by
  have inside : front.length < data.length := by simp [cut]
  have value := place_value data size front.length (Nat.le_of_lt inside)
  have here : data.getD front.length 0 = c := by simp [cut]
  have valid : Triple.Valid data.length ⟨tagPos, valPos, front.length⟩ ↔ tagPos ≤ valPos ∧ valPos < front.length := by
    simp [Triple.Valid, Nat.le_of_lt inside]
  rw [val_valid_step, if_pos ((place_before data size _ (Nat.le_of_lt inside)).mpr inside), value, here, List.length_append,
    List.length_singleton, UInt16.ofNat_add, place_value data size _ (Nat.le_refl _), valid]
  rfl

theorem tags_end (tagPos valPos : Nat) :
    TagsValid separator data (.ofNat data.length) (.ofNat data.length) tagPos valPos ↔ tagPos ≤ valPos ∧ valPos < data.length := by
  have stop : ¬ UInt16.ofNat data.length < .ofNat data.length := by
    rw [place_before data size _ (Nat.le_refl _)]
    exact Nat.lt_irrefl _
  rw [tags_valid_step, if_neg stop, place_value data size _ (Nat.le_refl _)]
  simp [Triple.Valid]

theorem val_end (tagPos valPos : Nat) :
    ValValid separator data (.ofNat data.length) (.ofNat data.length) tagPos valPos ↔
      TagsValid separator data (.ofNat data.length) (.ofNat (data.length + 1)) tagPos valPos := by
  have stop : ¬ UInt16.ofNat data.length < .ofNat data.length := by
    rw [place_before data size _ (Nat.le_refl _)]
    exact Nat.lt_irrefl _
  rw [val_valid_step, if_neg stop, UInt16.ofNat_add]
  rfl

end Read

section Short

variable (separator : UInt8) (data : Bytes) (short : data.length < 65535)
include short

theorem val_past (tagPos valPos : Nat) :
    ValValid separator data (.ofNat data.length) (.ofNat data.length) tagPos valPos ↔ tagPos ≤ valPos ∧ valPos < data.length := by
  have size : data.length < 65536 := Nat.lt_succ_of_lt short
  have stop : ¬ UInt16.ofNat (data.length + 1) < .ofNat data.length := by
    rw [UInt16.lt_iff_toNat_lt, UInt16.toNat_ofNat_of_lt' (Nat.succ_lt_succ short), place_value data size _ (Nat.le_refl _)]
    omega
  rw [val_end separator data size, tags_valid_step, if_neg stop, place_value data size _ (Nat.le_refl _)]
  simp [Triple.Valid]

def TagsExact (front rest : Bytes) : Prop := ∀ tagPos valPos, tagPos ≤ front.length → valPos < data.length →
  (TagsValid separator data (.ofNat data.length) (.ofNat front.length) tagPos valPos ↔
    (tagPos ≤ valPos ∨ byte '=' ∈ rest) ∧ Followed separator rest)

def ValExact (front rest : Bytes) : Prop := separator ≠ byte '=' → ∀ tagPos valPos, tagPos ≤ valPos → valPos < front.length →
  (ValValid separator data (.ofNat data.length) (.ofNat front.length) tagPos valPos ↔ ClosedBy separator rest)

section Character

variable (front rest : Bytes) (c : UInt8) (cut : data = front ++ c :: rest) (tags : TagsExact separator data (front ++ [c]) rest)
  (val : ValExact separator data (front ++ [c]) rest)
include cut tags val

theorem tags_exact_cons : TagsExact separator data front (c :: rest) := by
  intro tagPos valPos behind before
  have size : data.length < 65536 := Nat.lt_succ_of_lt short
  have longer : (front ++ [c]).length = front.length + 1 := List.length_append
  rw [tags_read separator data size front rest c cut]
  by_cases equal : c = byte '='
  · rw [if_pos equal, equal, followed_equal, val_read separator data size front rest c cut]
    by_cases same : c = separator
    · rw [if_pos same]
      refine iff_of_false (fun both => Nat.lt_irrefl _ both.1.2) ?_
      rintro ⟨-, differs, -⟩
      exact differs (same.symm.trans equal)
    · have differs : separator ≠ byte '=' := fun other => same (equal.trans other.symm)
      rw [if_neg same, val differs tagPos front.length behind (longer ▸ Nat.lt_succ_self _)]
      simp [differs]
  · rw [if_neg equal, followed_cons separator c rest equal, tags tagPos valPos (longer ▸ Nat.le_succ_of_le behind) before]
    simp [Ne.symm equal]

theorem val_exact_cons : ValExact separator data front (c :: rest) := by
  intro differs tagPos valPos fine before
  have size : data.length < 65536 := Nat.lt_succ_of_lt short
  have longer : (front ++ [c]).length = front.length + 1 := List.length_append
  have inside : front.length < data.length := by simp [cut]
  rw [val_read separator data size front rest c cut]
  by_cases same : c = separator
  · have past : ¬ front.length + 1 ≤ valPos := by omega
    rw [if_pos same, tags (front.length + 1) valPos (Nat.le_of_eq longer.symm) (Nat.lt_trans before inside), same,
      closed_by_separator separator rest differs]
    simp [fine, before, past]
  · rw [if_neg same, closed_by_cons separator c rest same, val differs tagPos valPos fine (longer ▸ Nat.lt_succ_of_lt before)]

end Character

-- Induction on what is left of the data, both loops together.
theorem scans_exact (front rest : Bytes) (cut : data = front ++ rest) :
    TagsExact separator data front rest ∧ ValExact separator data front rest := by
  induction rest generalizing front with
  | nil =>
      obtain rfl : data = front := by simpa using cut
      constructor
      · intro tagPos valPos _ before
        rw [tags_end separator data (Nat.lt_succ_of_lt short)]
        simp [before, Followed]
      · intro _ tagPos valPos fine before
        rw [val_past separator data short]
        simp [fine, before, ClosedBy]
  | cons c rest ih =>
      obtain ⟨tags, val⟩ := ih (front ++ [c]) (by simp [cut])
      exact ⟨tags_exact_cons separator data short front rest c cut tags val,
        val_exact_cons separator data short front rest c cut tags val⟩

end Short

section Longest

variable (separator : UInt8) (data : Bytes)

theorem tags_skip (size : data.length < 65536) (front mid rest : Bytes) (cut : data = front ++ mid ++ rest) (free : byte '=' ∉ mid)
    (tagPos valPos : Nat) :
    TagsValid separator data (.ofNat data.length) (.ofNat front.length) tagPos valPos ↔
      TagsValid separator data (.ofNat data.length) (.ofNat (front ++ mid).length) tagPos valPos := by
  induction mid generalizing front with
  | nil => rw [List.append_nil]
  | cons c mid ih =>
      obtain ⟨other, later⟩ := not_or.mp (List.mem_cons.not.mp free)
      rw [tags_read separator data size front (mid ++ rest) c (by simp [cut]), if_neg (Ne.symm other),
        ih (front ++ [c]) (by simp [cut]) later, List.append_assoc, List.singleton_append]

theorem val_skip (size : data.length < 65536) (front mid rest : Bytes) (cut : data = front ++ mid ++ rest) (free : separator ∉ mid)
    (tagPos valPos : Nat) :
    ValValid separator data (.ofNat data.length) (.ofNat front.length) tagPos valPos ↔
      ValValid separator data (.ofNat data.length) (.ofNat (front ++ mid).length) tagPos valPos := by
  induction mid generalizing front with
  | nil => rw [List.append_nil]
  | cons c mid ih =>
      obtain ⟨other, later⟩ := not_or.mp (List.mem_cons.not.mp free)
      rw [val_read separator data size front (mid ++ rest) c (by simp [cut]), if_neg (Ne.symm other),
        ih (front ++ [c]) (by simp [cut]) later, List.append_assoc, List.singleton_append]

theorem first_stop (query : Bytes) (stops : Stops separator query) :
    ∃ front mid rest value, query = front ++ mid ++ separator :: rest ∧ query = front ++ byte '=' :: value ∧
      byte '=' ∉ front ∧ separator ∉ mid := by
  obtain ⟨before, after, split, behind⟩ := stops
  obtain ⟨front, value, equal, free⟩ := List.eq_append_cons_of_mem behind
  have whole : query = before ++ [separator] ++ after := by rw [split, List.append_cons]
  have last : separator ∈ byte '=' :: value := by
    have ended : (front ++ byte '=' :: value).getLast? = some separator := by rw [← equal]; simp
    rw [List.getLast?_append_cons] at ended
    exact List.mem_of_getLast? ended
  obtain ⟨mid, rest, stop, apart⟩ := List.eq_append_cons_of_mem last
  refine ⟨front, mid, rest ++ after, value ++ after, ?_, ?_, free, apart⟩
  · rw [whole, equal, stop]
    simp
  · rw [whole, equal]
    simp

theorem first_pair (size : data.length < 65536) (stops : Stops separator data) :
    ∃ equal read rest, data = read ++ rest ∧ equal < read.length ∧ ∀ tagPos valPos,
      (TagsValid separator data (.ofNat data.length) 0 tagPos valPos ↔ (tagPos ≤ equal ∧ equal + 1 < read.length) ∧
        TagsValid separator data (.ofNat data.length) (.ofNat read.length) read.length equal) := by
  obtain ⟨front, mid, rest, value, cut, opens, free, apart⟩ := first_stop separator data stops
  have longer : (front ++ mid ++ [separator]).length = (front ++ mid).length + 1 := List.length_append
  refine ⟨front.length, front ++ mid ++ [separator], rest, by simp [cut], ?_, fun tagPos valPos => ?_⟩
  · exact longer ▸ Nat.lt_succ_of_le (List.prefix_append front mid).length_le
  have skipped := tags_skip separator data size [] front (byte '=' :: value) (by simp [opens]) free tagPos valPos
  have entered := tags_read separator data size front value (byte '=') opens tagPos valPos
  have reached := val_skip separator data size front mid (separator :: rest) cut apart tagPos front.length
  have ended := val_read separator data size (front ++ mid) rest separator cut tagPos front.length
  rw [if_pos rfl] at entered ended
  rw [List.nil_append] at skipped
  rw [← longer] at ended
  rw [longer, Nat.succ_lt_succ_iff, ← longer]
  exact (skipped.trans entered).trans (reached.trans ended)

theorem stops_at (m n : Nat) (before : m ≤ n) (inside : n < data.length) (equal : data.getD m 0 = byte '=')
    (same : data.getD n 0 = separator) : Stops separator data := by
  have behind : m < data.length := Nat.lt_of_le_of_lt before inside
  simp only [List.getD_eq_getElem?_getD, List.getElem?_eq_getElem inside, List.getElem?_eq_getElem behind,
    Option.getD_some] at equal same
  refine ⟨data.take n, data.drop (n + 1), ?_, ?_⟩
  · rw [← same, List.getElem_cons_drop, List.take_append_drop]
  · rw [Behind, ← same, List.take_append_getElem, ← equal]
    exact List.mem_take_iff_getElem.mpr ⟨m, by omega, rfl⟩

variable (longest : data.length = 65535)
include longest

theorem val_wraps (tagPos valPos : Nat) :
    ValValid separator data (.ofNat data.length) (.ofNat data.length) tagPos valPos ↔
      TagsValid separator data (.ofNat data.length) 0 tagPos valPos := by
  rw [val_end separator data (by omega), longest]
  rfl

theorem scans_fail (equal : Nat)
    (again : ∀ tagPos valPos, equal < tagPos → ¬ TagsValid separator data (.ofNat data.length) 0 tagPos valPos)
    (front rest : Bytes) (cut : data = front ++ rest) (tagPos valPos : Nat) (past : equal < tagPos) :
    (valPos < tagPos → tagPos ≤ front.length → ¬ TagsValid separator data (.ofNat data.length) (.ofNat front.length) tagPos valPos) ∧
      (valPos ≤ front.length → tagPos ≤ front.length →
        ¬ ValValid separator data (.ofNat data.length) (.ofNat front.length) tagPos valPos) := by
  have size : data.length < 65536 := by omega
  induction rest generalizing front tagPos valPos with
  | nil =>
      obtain rfl : data = front := by simpa using cut
      constructor
      · intro inverted _
        rw [tags_end separator data size]
        omega
      · intro _ _
        rw [val_wraps separator data longest]
        exact again tagPos valPos past
  | cons c rest ih =>
      have longer : (front ++ [c]).length = front.length + 1 := by simp
      have later := ih (front ++ [c]) (by simp [cut])
      constructor
      · intro inverted behind
        rw [tags_read separator data size front rest c cut]
        split
        case isTrue =>
          rw [val_read separator data size front rest c cut]
          split
          case isTrue => exact fun both => Nat.lt_irrefl _ both.1.2
          case isFalse => exact (later tagPos front.length past).2 (by omega) (by omega)
        case isFalse => exact (later tagPos valPos past).1 inverted (by omega)
      · intro before behind
        rw [val_read separator data size front rest c cut]
        split
        case isTrue => exact fun both => (later (front.length + 1) valPos (by omega)).1 (by omega) (by omega) both.2
        case isFalse => exact (later tagPos valPos past).2 (by omega) (by omega)

theorem stops_fail (stops : Stops separator data) : ¬ TagsValid separator data (.ofNat data.length) 0 0 0 := by
  obtain ⟨equal, read, rest, cut, inside, pair⟩ := first_pair separator data (by omega) stops
  have again (tagPos valPos : Nat) (past : equal < tagPos) : ¬ TagsValid separator data (.ofNat data.length) 0 tagPos valPos := by
    rw [pair]
    exact fun both => Nat.not_le_of_lt past both.1.1
  rw [pair]
  exact fun both => (scans_fail separator data longest equal again read rest cut read.length equal inside).1 inside (Nat.le_refl _) both.2

theorem nothing_reported (quiet : ¬ Stops separator data) (fuel : Nat) :
    (∀ n tagPos valPos, (∃ m, n ≤ m ∧ m < data.length ∧ data.getD m 0 = byte '=') →
      reportTags separator data (.ofNat data.length) fuel (.ofNat n) tagPos valPos = []) ∧
      ∀ n tagPos valPos, n ≤ data.length → (∃ m, m ≤ n ∧ m < data.length ∧ data.getD m 0 = byte '=') →
        reportVal separator data (.ofNat data.length) fuel (.ofNat n) tagPos valPos = [] := by
  have size : data.length < 65536 := by omega
  induction fuel with
  | zero => exact ⟨fun _ _ _ _ => by rw [reportTags], fun _ _ _ _ _ => by rw [reportVal]⟩
  | succ fuel ih =>
      obtain ⟨tags, val⟩ := ih
      constructor
      · rintro n tagPos valPos ⟨m, ahead, inside, equal⟩
        have here : n < data.length := Nat.lt_of_le_of_lt ahead inside
        rw [reportTags, if_pos ((place_before data size n (Nat.le_of_lt here)).mpr here), place_value data size n (Nat.le_of_lt here)]
        split
        case isTrue found => exact val n tagPos n (Nat.le_of_lt here) ⟨n, Nat.le_refl n, here, found⟩
        case isFalse other =>
          have later : n + 1 ≤ m := Nat.lt_of_le_of_ne ahead fun same => other (same ▸ equal)
          have next := tags (n + 1) tagPos valPos ⟨m, later, inside, equal⟩
          rwa [UInt16.ofNat_add] at next
      · rintro n tagPos valPos bound ⟨m, before, inside, equal⟩
        rw [reportVal]
        by_cases here : n < data.length
        · have other : ¬ data.getD n 0 = separator := fun same => quiet (stops_at separator data m n before here equal same)
          have next := val (n + 1) tagPos valPos here ⟨m, Nat.le_succ_of_le before, inside, equal⟩
          rw [if_pos ((place_before data size n bound).mpr here), place_value data size n bound, if_neg other]
          rwa [UInt16.ofNat_add] at next
        · obtain rfl : n = data.length := Nat.le_antisymm bound (Nat.le_of_not_lt here)
          have wrapped : UInt16.ofNat data.length + 1 = .ofNat 0 := by rw [longest]; rfl
          rw [if_neg (mt (place_before data size _ bound).mp here), wrapped]
          exact tags 0 tagPos valPos ⟨m, Nat.zero_le m, inside, equal⟩

theorem quiet_valid (quiet : ¬ Stops separator data) : TagsValid separator data (.ofNat data.length) 0 0 0 := by
  by_cases equal : byte '=' ∈ data
  · intro fuel triple member
    obtain ⟨m, inside, found⟩ := List.getElem_of_mem equal
    have nothing := (nothing_reported separator data longest quiet fuel).1 0 0 0
      ⟨m, Nat.zero_le m, inside, by simp [inside, found]⟩
    rw [show (0 : UInt16) = .ofNat 0 from rfl, nothing] at member
    exact absurd member List.not_mem_nil
  · have skipped := tags_skip separator data (by omega) [] data [] (by simp) equal 0 0
    rw [List.nil_append] at skipped
    exact skipped.mpr ((tags_end separator data (by omega) 0 0).mpr (by omega))

end Longest

theorem tags_valid_iff (separator : UInt8) (data : Bytes) (size : data.length ≤ 65535) :
    TagsValid separator data (.ofNat data.length) 0 0 0 ↔ InOrder separator data := by
  by_cases empty : data = []
  · subst empty
    exact iff_of_false (fun valid => by simpa using (tags_end separator [] (by decide) 0 0).mp valid) fun ordered => ordered.present rfl
  · by_cases longest : data.length = 65535
    · constructor
      · intro valid
        have quiet : ¬ Stops separator data := fun stops => stops_fail separator data longest stops valid
        exact ⟨empty, fun before after split behind => absurd ⟨before, after, split, behind⟩ quiet, fun _ => quiet⟩
      · exact fun ordered => quiet_valid separator data longest (ordered.longest longest)
    · have short : data.length < 65535 := Nat.lt_of_le_of_ne size longest
      have scanned := (scans_exact separator data short [] data rfl).1 0 0 (Nat.le_refl 0) (List.length_pos_iff.mpr empty)
      constructor
      · exact fun valid => ⟨empty, (scanned.mp valid).2, fun same => absurd same longest⟩
      · exact fun ordered => scanned.mpr ⟨.inl (Nat.le_refl 0), ordered.followed⟩

section Strings

variable (separator : UInt8) (data : Bytes)

theorem token_pair_cases (triple : Triple) :
    triple.Valid data.length ∧ (∃ pair, tokenPair data triple.begin_ triple.equal triple.end_ = .ok pair) ∨
      ¬ triple.Valid data.length ∧ tokenPair data triple.begin_ triple.equal triple.end_ = .error .length := by
  obtain ⟨begin_, equal, end_⟩ := triple
  simp only [tokenPair, stringBetween, Triple.Valid]
  by_cases tag : begin_ ≤ equal ∧ equal ≤ data.length
  · rw [if_pos tag, ok_bind]
    by_cases val : equal + 1 ≤ end_ ∧ end_ ≤ data.length
    · rw [if_pos val]
      exact .inl ⟨⟨tag.1, val⟩, _, rfl⟩
    · rw [if_neg val]
      exact .inr ⟨fun valid => val valid.2, rfl⟩
  · rw [if_neg tag]
    exact .inr ⟨fun valid => tag ⟨valid.1, by omega⟩, rfl⟩

theorem pair_then {α : Type} (triple : Triple) (next : Bytes × Bytes → Except Fault α) (others : Prop)
    (rest : ∀ pair, next pair = .error .length ↔ others) :
    (tokenPair data triple.begin_ triple.equal triple.end_ >>= next) = .error .length ↔ ¬ triple.Valid data.length ∨ others := by
  rcases token_pair_cases data triple with ⟨valid, pair, made⟩ | ⟨invalid, thrown⟩
  · rw [made, ok_bind, rest pair]
    simp [valid]
  · rw [thrown, error_bind]
    simp [invalid]

theorem strings_throw (len : UInt16) (fuel : Nat) :
    (∀ i tagPos valPos, scanTags separator data len fuel i tagPos valPos = .error .length ↔
      ∃ triple ∈ reportTags separator data len fuel i tagPos valPos, ¬ triple.Valid data.length) ∧
      ∀ i tagPos valPos, scanVal separator data len fuel i tagPos valPos = .error .length ↔
        ∃ triple ∈ reportVal separator data len fuel i tagPos valPos, ¬ triple.Valid data.length := by
  induction fuel with
  | zero => simp [scanTags, scanVal, reportTags, reportVal]
  | succ fuel ih =>
      obtain ⟨tags, val⟩ := ih
      constructor
      · intro i tagPos valPos
        rw [scanTags, reportTags]
        split
        case isTrue =>
          split
          case isTrue => exact val i tagPos i.toNat
          case isFalse => exact tags (i + 1) tagPos valPos
        case isFalse =>
          rw [pair_then data ⟨tagPos, valPos, len.toNat⟩ _ False (by simp)]
          simp
      · intro i tagPos valPos
        rw [scanVal, reportVal]
        split
        case isTrue =>
          split
          case isTrue =>
            have later (pair : Bytes × Bytes) :
                ((scanTags separator data len fuel (i + 1) (i.toNat + 1) valPos >>= fun rest => pure (pair :: rest)) = .error .length) ↔
                  ∃ triple ∈ reportTags separator data len fuel (i + 1) (i.toNat + 1) valPos, ¬ triple.Valid data.length := by
              rw [← tags, bind_error_iff]
              simp
            rw [pair_then data ⟨tagPos, valPos, i.toNat⟩ _ _ later]
            simp
          case isFalse => exact val (i + 1) tagPos valPos
        case isFalse => exact tags (i + 1) tagPos valPos

end Strings

structure Reported (separator : UInt8) (data : Bytes) : Prop where
  valid : ∀ fuel, ∀ triple ∈ reportTags separator data (.ofNat data.length) fuel 0 0 0,
    triple.begin_ ≤ triple.equal ∧ triple.equal < triple.end_ ∧ triple.end_ ≤ data.length
  caught : ∀ fuel, tokenizeTagVal fuel separator data data.length ≠ .error .length

theorem tokenize_tag_val_iff (separator : UInt8) (data : Bytes) (size : data.length ≤ 65535) :
    Reported separator data ↔ InOrder separator data := by
  have whole : (UInt16.ofNat data.length).toNat = data.length := place_value data (Nat.lt_succ_of_le size) _ (Nat.le_refl _)
  rw [← tags_valid_iff separator data size, TagsValid, whole]
  constructor
  · exact fun reported => reported.valid
  · intro valid
    refine ⟨valid, fun fuel thrown => ?_⟩
    obtain ⟨triple, member, invalid⟩ := ((strings_throw separator data _ fuel).1 0 0 0).mp thrown
    exact invalid (valid fuel triple member)

theorem tokenize_tag_val_pairs :
    let query := "ip=1&name=".toList.map byte
    reportTags (byte '&') query 10 20 0 0 0 = [⟨0, 2, 4⟩, ⟨5, 9, 10⟩] ∧ Reported (byte '&') query := by
  intro query
  have followed : Followed (byte '&') query := by
    intro before after split _
    have place : ∀ n < 10, query[n]? = some (byte '&') → byte '=' ∈ query.drop (n + 1) := by decide
    have length : query.length = before.length + (after.length + 1) := by rw [split, List.length_append, List.length_cons]
    have ten : query.length = 10 := rfl
    have here : query[before.length]? = some (byte '&') := by simp [split]
    have rest : query.drop (before.length + 1) = after := by simp [split]
    rw [← rest]
    exact place before.length (by omega) here
  exact ⟨by decide, (tokenize_tag_val_iff (byte '&') query (by decide)).mpr ⟨by decide, followed, fun long => absurd long (by decide)⟩⟩

theorem empty_query_reported : ¬ Reported (byte '&') [] := by
  intro reported
  exact absurd (reported.valid 1 ⟨0, 0, 0⟩ (by decide)).2.1 (Nat.lt_irrefl 0)

end Libx.Web

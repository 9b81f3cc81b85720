import Libx.Lib.FirstSeen
import Mathlib.Data.Int.ModEq
import Mathlib.Data.Set.Function
import Mathlib.Data.Finset.Card
import Mathlib.Order.Interval.Finset.Nat

set_option autoImplicit false

namespace Libx.Tvp

-- An int of the source: what a computation leaves once it wraps around.
def int (value : Int) : Int := value.bmod (2 ^ 32)

theorem int_bounds (value : Int) : -2 ^ 31 ≤ int value ∧ int value < 2 ^ 31 := by
  rw [int, Int.bmod_def]
  split <;> omega

-- The template intclipper<tags...>. The checks at compile time need a tag, no
-- negative one (TAG_MIN is also a size_t) and TAG_MAX + 10 to be an int.
structure IntClipper where
  acceptedTags : List Nat
  nonempty : acceptedTags ≠ []
  ints : ∀ tag ∈ acceptedTags, tag + 10 < 2 ^ 31

namespace IntClipper

variable (clipper : IntClipper)

def tagMin : Nat := clipper.acceptedTags.min clipper.nonempty
def tagMax : Nat := clipper.acceptedTags.max clipper.nonempty
def nbEntries : Nat := clipper.acceptedTags.length
def mapSize : Nat := 2 + clipper.tagMax - clipper.tagMin

-- MapTable: slot tag - (TAG_MIN - 1) of an accepted tag gets the next position, unless it has one.
def slot (tag : Nat) : Nat := tag + 1 - clipper.tagMin
def mapTable : List Nat := FirstSeen.table clipper.mapSize (clipper.acceptedTags.map clipper.slot)

def clipTag (tag : Int) : Int :=
  let tag := int (tag - (clipper.tagMin - 1))
  let tag := tag * (if 0 < tag then 1 else 0)
  tag * (if tag < 2 + clipper.tagMax - clipper.tagMin then 1 else 0)

def mapTag2Index (tag : Int) : Nat := clipper.mapTable.getD (clipper.clipTag tag).toNat 0

def Fits (tag : Int) : Prop := -2 ^ 31 ≤ tag - (clipper.tagMin - 1) ∧ tag - (clipper.tagMin - 1) < 2 ^ 31

theorem tag_min_le (tag : Nat) (accepted : tag ∈ clipper.acceptedTags) : clipper.tagMin ≤ tag := List.min_le_of_mem accepted
theorem le_tag_max (tag : Nat) (accepted : tag ∈ clipper.acceptedTags) : tag ≤ clipper.tagMax := List.le_max_of_mem accepted
theorem tag_min_accepted : clipper.tagMin ∈ clipper.acceptedTags := List.min_mem _

theorem int_of_range (value : Int) (low : -2 ^ 31 ≤ value) (high : value < 2 ^ 31) : int value = value :=
  Int.bmod_eq_of_le (by omega) (by omega)

theorem fits_nonnegative (tag : Int) (low : 0 ≤ tag) (high : tag + 1 < 2 ^ 31) : clipper.Fits tag := by
  have least := clipper.ints _ clipper.tag_min_accepted
  exact ⟨by omega, by omega⟩

theorem clip_tag_eq (tag : Int) (fits : clipper.Fits tag) :
    clipper.clipTag tag =
      if (clipper.tagMin : Int) ≤ tag ∧ tag ≤ clipper.tagMax then tag - (clipper.tagMin - 1) else 0 := by
  have ordered := clipper.tag_min_le _ (List.max_mem clipper.nonempty)
  change clipper.tagMin ≤ clipper.tagMax at ordered
  simp only [clipTag, int_of_range _ fits.1 fits.2]
  by_cases positive : 0 < tag - (clipper.tagMin - 1)
  · by_cases small : tag - (clipper.tagMin - 1) < 2 + clipper.tagMax - clipper.tagMin
    · rw [if_pos positive, Int.mul_one, if_pos small, Int.mul_one, if_pos ⟨by omega, by omega⟩]
    · rw [if_pos positive, Int.mul_one, if_neg small, Int.mul_zero, if_neg (by omega)]
  · rw [if_neg positive, Int.mul_zero, Int.zero_mul, if_neg (by omega)]

theorem table_numbered : clipper.mapTable.length = clipper.mapSize ∧
    ∃ last, FirstSeen.Numbered (clipper.acceptedTags.map clipper.slot) clipper.mapTable last ∧
      FirstSeen.Rising (clipper.acceptedTags.map clipper.slot) clipper.mapTable last := by
  refine FirstSeen.table_numbered clipper.mapSize _ fun key member => ?_
  obtain ⟨tag, accepted, rfl⟩ := List.mem_map.mp member
  have low := clipper.tag_min_le tag accepted
  have high := clipper.le_tag_max tag accepted
  simp only [slot, mapSize]
  omega

theorem index_clipped (tag : Int)
    (clipped : clipper.clipTag tag = if (clipper.tagMin : Int) ≤ tag ∧ tag ≤ clipper.tagMax then tag - (clipper.tagMin - 1) else 0)
    (foreign : ∀ a ∈ clipper.acceptedTags, (a : Int) ≠ tag) : clipper.mapTag2Index tag = 0 := by
  obtain ⟨size, last, numbered, _⟩ := clipper.table_numbered
  by_contra present
  have absent : (clipper.clipTag tag).toNat ∉ clipper.acceptedTags.map clipper.slot := by
    intro member
    obtain ⟨a, accepted, same⟩ := List.mem_map.mp member
    have low := clipper.tag_min_le a accepted
    rw [clipped, slot] at same
    split at same
    · exact foreign a accepted (by omega)
    · simp only [Int.toNat_zero] at same
      omega
  by_cases inside : (clipper.clipTag tag).toNat < clipper.mapTable.length
  · exact absent ((numbered.numbered _ inside).mp present)
  · exact present (by simp [mapTag2Index, List.getD_eq_getElem?_getD, List.getElem?_eq_none (not_lt.mp inside)])

theorem index_zero (tag : Int) (fits : clipper.Fits tag) (foreign : ∀ a ∈ clipper.acceptedTags, (a : Int) ≠ tag) :
    clipper.mapTag2Index tag = 0 := index_clipped clipper tag (clip_tag_eq clipper tag fits) foreign

theorem index_int (tag : Int) (low : -2 ^ 31 ≤ tag) (high : tag < 2 ^ 31) (foreign : ∀ a ∈ clipper.acceptedTags, (a : Int) ≠ tag) :
    clipper.mapTag2Index tag = 0 := by
  have ordered := clipper.tag_min_le _ (List.max_mem clipper.nonempty)
  change clipper.tagMin ≤ clipper.tagMax at ordered
  have top := clipper.ints _ (List.max_mem clipper.nonempty)
  change clipper.tagMax + 10 < 2 ^ 31 at top
  by_cases fits : clipper.Fits tag
  · exact index_zero clipper tag fits foreign
  · refine index_clipped clipper tag ?_ foreign
    rw [if_neg (by rw [Fits] at fits; omega)]
    by_cases below : tag - (clipper.tagMin - 1) < -2 ^ 31
    · have wrapped : int (tag - (clipper.tagMin - 1)) = tag - (clipper.tagMin - 1) + 2 ^ 32 := by
        rw [int, ← Int.add_bmod_right]
        exact Int.bmod_eq_of_le (by omega) (by omega)
      simp only [clipTag, wrapped]
      rw [if_pos (by omega), Int.mul_one, if_neg (by omega), Int.mul_zero]
    · have wrapped : int (tag - (clipper.tagMin - 1)) = tag - (clipper.tagMin - 1) - 2 ^ 32 := by
        rw [Fits] at fits
        rw [int, ← Int.sub_bmod_right]
        exact Int.bmod_eq_of_le (by omega) (by omega)
      simp only [clipTag, wrapped]
      rw [if_neg (by omega), Int.mul_zero, Int.zero_mul]

theorem clip_accepted (tag : Nat) (accepted : tag ∈ clipper.acceptedTags) :
    (clipper.clipTag tag).toNat = clipper.slot tag := by
  have low := clipper.tag_min_le tag accepted
  have high := clipper.le_tag_max tag accepted
  have small := clipper.ints tag accepted
  rw [clip_tag_eq clipper tag (clipper.fits_nonnegative tag (by omega) (by omega)), if_pos ⟨by omega, by omega⟩, slot]
  omega

theorem index_few (tag : Int) : clipper.mapTag2Index tag ≤ clipper.nbEntries := by
  obtain ⟨size, last, numbered, _⟩ := clipper.table_numbered
  have below := numbered.below (clipper.clipTag tag).toNat
  have few := numbered.few
  rw [List.length_map] at few
  rw [mapTag2Index, nbEntries]
  omega

theorem index_accepted (tag : Nat) (accepted : tag ∈ clipper.acceptedTags) :
    clipper.mapTag2Index tag ≠ 0 ∧ clipper.mapTag2Index tag ≤ clipper.nbEntries := by
  obtain ⟨size, last, numbered, _⟩ := clipper.table_numbered
  have member := List.mem_map_of_mem (f := clipper.slot) accepted
  refine ⟨?_, clipper.index_few tag⟩
  rw [mapTag2Index, clip_accepted clipper tag accepted]
  exact (numbered.numbered _ (numbered.within _ member)).mpr member

theorem index_apart (one other : Nat) (oneAccepted : one ∈ clipper.acceptedTags) (otherAccepted : other ∈ clipper.acceptedTags)
    (same : clipper.mapTag2Index one = clipper.mapTag2Index other) : one = other := by
  obtain ⟨size, last, numbered, _⟩ := clipper.table_numbered
  have present := (clipper.index_accepted one oneAccepted).1
  simp only [mapTag2Index, clip_accepted clipper one oneAccepted, clip_accepted clipper other otherAccepted] at same present
  have slots := numbered.apart _ _ same present
  have oneLow := clipper.tag_min_le one oneAccepted
  have otherLow := clipper.tag_min_le other otherAccepted
  simp only [slot] at slots
  omega

theorem index_eq_iff (tag : Nat) (other : Int) (accepted : tag ∈ clipper.acceptedTags) (fits : clipper.Fits other) :
    clipper.mapTag2Index other = clipper.mapTag2Index tag ↔ other = tag := by
  constructor
  · intro same
    by_cases known : ∃ a ∈ clipper.acceptedTags, (a : Int) = other
    · obtain ⟨a, otherAccepted, rfl⟩ := known
      rw [clipper.index_apart a tag otherAccepted accepted same]
    · have zero := clipper.index_zero other fits fun a member equal => known ⟨a, member, equal⟩
      exact absurd (same ▸ zero) (clipper.index_accepted tag accepted).1
  · intro same
    rw [same]

theorem clip_within (tag : Int) (fits : clipper.Fits tag) :
    0 ≤ clipper.clipTag tag ∧ clipper.clipTag tag < clipper.mapTable.length := by
  have ordered := clipper.tag_min_le _ (List.max_mem clipper.nonempty)
  change clipper.tagMin ≤ clipper.tagMax at ordered
  rw [clipper.table_numbered.1, mapSize, clip_tag_eq clipper tag fits]
  split <;> omega

theorem index_zero_iff (tag : Int) (fits : clipper.Fits tag) :
    clipper.mapTag2Index tag = 0 ↔ ∀ accepted ∈ clipper.acceptedTags, (accepted : Int) ≠ tag := by
  constructor
  · rintro zero accepted member rfl
    exact (clipper.index_accepted accepted member).1 zero
  · exact clipper.index_zero tag fits

theorem slot_place (tag : Nat) (tags : List Nat) (low : ∀ other ∈ tags, clipper.tagMin ≤ other) (member : tag ∈ tags) :
    (tags.map clipper.slot).idxOf (clipper.slot tag) = tags.idxOf tag := by
  induction tags with
  | nil => simp at member
  | cons first tags ih =>
      by_cases same : first = tag
      · simp [same]
      · have firstLow := low first (by simp)
        have tagLow := low tag member
        have apart : clipper.slot first ≠ clipper.slot tag := by
          simp only [slot]
          omega
        have later : tag ∈ tags := by simpa [Ne.symm same] using member
        rw [List.map_cons, List.idxOf_cons_ne _ apart, List.idxOf_cons_ne _ same,
          ih (fun other inside => low other (by simp [inside])) later]

theorem index_slot (tag : Nat) (accepted : tag ∈ clipper.acceptedTags) :
    clipper.mapTag2Index tag = clipper.mapTable.getD (clipper.slot tag) 0 := by
  rw [mapTag2Index, clip_accepted clipper tag accepted]

theorem index_order (one other : Nat) (oneAccepted : one ∈ clipper.acceptedTags) (otherAccepted : other ∈ clipper.acceptedTags) :
    clipper.mapTag2Index one < clipper.mapTag2Index other ↔ clipper.acceptedTags.idxOf one < clipper.acceptedTags.idxOf other := by
  obtain ⟨size, last, numbered, rising⟩ := clipper.table_numbered
  rw [index_slot clipper one oneAccepted, index_slot clipper other otherAccepted,
    rising.rising _ (List.mem_map_of_mem oneAccepted) _ (List.mem_map_of_mem otherAccepted),
    slot_place clipper one _ clipper.tag_min_le oneAccepted, slot_place clipper other _ clipper.tag_min_le otherAccepted]

theorem index_onto : ∃ last, Set.BijOn (fun tag : Nat => clipper.mapTag2Index tag) clipper.acceptedTags.toFinset (Finset.Icc 1 last) := by
  obtain ⟨size, last, numbered, rising⟩ := clipper.table_numbered
  refine ⟨last - 1, fun tag member => ?_, fun one oneMember other otherMember same => ?_, fun number within => ?_⟩
  · have accepted : tag ∈ clipper.acceptedTags := by simpa using member
    have present := (clipper.index_accepted tag accepted).1
    have below := numbered.below (clipper.slot tag)
    rw [← index_slot clipper tag accepted] at below
    simp only [Finset.coe_Icc, Set.mem_Icc]
    omega
  · exact clipper.index_apart one other (by simpa using oneMember) (by simpa using otherMember) same
  · simp only [Finset.coe_Icc, Set.mem_Icc] at within
    obtain ⟨key, member, given⟩ := rising.used number within.1 (by omega)
    obtain ⟨tag, accepted, rfl⟩ := List.mem_map.mp member
    exact ⟨tag, by simpa using accepted, (index_slot clipper tag accepted).trans given⟩

theorem map_tag_perfect_index :
    (∀ tag : Int, clipper.Fits tag →
      (clipper.mapTag2Index tag = 0 ↔ ∀ accepted ∈ clipper.acceptedTags, (accepted : Int) ≠ tag) ∧
        0 ≤ clipper.clipTag tag ∧ clipper.clipTag tag < clipper.mapTable.length) ∧
      Set.BijOn (fun tag : Nat => clipper.mapTag2Index tag) clipper.acceptedTags.toFinset
        (Finset.Icc 1 clipper.acceptedTags.toFinset.card) ∧
      ∀ one ∈ clipper.acceptedTags, ∀ other ∈ clipper.acceptedTags,
        (clipper.mapTag2Index one < clipper.mapTag2Index other ↔
          clipper.acceptedTags.idxOf one < clipper.acceptedTags.idxOf other) := by
  refine ⟨fun tag fits => ⟨index_zero_iff clipper tag fits, clip_within clipper tag fits⟩, ?_, fun one oneAccepted other otherAccepted =>
    index_order clipper one other oneAccepted otherAccepted⟩
  obtain ⟨last, onto⟩ := clipper.index_onto
  have count := Set.BijOn.finsetCard_eq _ onto
  rw [Nat.card_Icc, Nat.add_sub_cancel] at count
  rw [count]
  exact onto

example : ([8, 9, 35, 10, 9] : List Int).map (IntClipper.mk [8, 9, 35, 48, 22, 9] (by simp) (by decide)).mapTag2Index = [1, 2, 3, 0, 2] := by
  decide

end IntClipper

end Libx.Tvp

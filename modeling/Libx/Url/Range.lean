import Libx.Url.RoundTrip

set_option autoImplicit false

namespace Libx.Url

-- The places read, and the text; there is none where a place lies behind the buffer.
structure Scan where
  reads : List Nat
  text : Option Bytes
deriving DecidableEq, Repr

def Scan.behind (scan : Scan) (reads : List Nat) (written : Bytes) : Scan :=
  ⟨reads ++ scan.reads, scan.text.map (written ++ ·)⟩

-- The loop of url_decode( begin_, end_ ): current and the buffer from it on.
def scanRange (end_ : Nat) : Nat → Bytes → Scan
  | current, [] => if current = end_ then ⟨[], some []⟩ else ⟨[current], none⟩
  | current, c :: rest =>
      if current = end_ then ⟨[], some []⟩
      else if c = byte '%' then
        match rest with
        | high :: low :: after =>
            if high = 0 then (scanRange end_ (current + 1) (high :: low :: after)).behind [current, current + 1] []
            else if low = 0 then
              (scanRange end_ (current + 1) (high :: low :: after)).behind [current, current + 1, current + 2] []
            else (scanRange end_ (current + 3) after).behind [current, current + 1, current + 2] [joined high low]
        | [high] =>
            if high = 0 then (scanRange end_ (current + 1) [high]).behind [current, current + 1] []
            else ⟨[current, current + 1, current + 2], none⟩
        | [] => ⟨[current, current + 1], none⟩
      else (scanRange end_ (current + 1) rest).behind [current] [plusToSpace c]

-- begin_ is the place 0 of the buffer.
def urlDecodeRange (buffer : Bytes) (end_ : Nat) : Scan := scanRange end_ 0 buffer

def EscapesInside : Bytes → Prop
  | [] => True
  | c :: rest =>
      if c = byte '%' then
        match rest with
        | high :: low :: after =>
            if high ≠ 0 ∧ low ≠ 0 then EscapesInside after else EscapesInside (high :: low :: after)
        | [high] => high = 0
        | [] => False
      else EscapesInside rest

def Scan.Within (scan : Scan) (end_ : Nat) (text : Bytes) : Prop := (∀ place ∈ scan.reads, place < end_) ∧ scan.text = some text

def Scan.Strays (scan : Scan) (end_ : Nat) : Prop := ∃ place ∈ scan.reads, end_ ≤ place

theorem within_behind (scan : Scan) (end_ : Nat) (text written : Bytes) (reads : List Nat) (within : scan.Within end_ text)
    (here : ∀ place ∈ reads, place < end_) : (scan.behind reads written).Within end_ (written ++ text) := by
  refine ⟨fun place member => ?_, by simp [Scan.behind, within.2]⟩
  cases List.mem_append.mp member with
  | inl now => exact here place now
  | inr later => exact within.1 place later

theorem all_before (end_ current count : Nat) (fits : current + count ≤ end_) :
    ∀ place ∈ List.range' current count, place < end_ := by
  intro place member
  exact Nat.lt_of_lt_of_le (List.mem_range'_1.mp member).2 fits

theorem strays_behind (scan : Scan) (end_ : Nat) (reads : List Nat) (written : Bytes) (strays : scan.Strays end_) :
    (scan.behind reads written).Strays end_ := by
  obtain ⟨place, member, outside⟩ := strays
  exact ⟨place, List.mem_append_right reads member, outside⟩

theorem scan_end (current : Nat) (after : Bytes) : scanRange current current after = ⟨[], some []⟩ := by
  cases after with
  | nil => simp [scanRange]
  | cons c rest => rw [scanRange.eq_def]; simp

section Steps

variable (end_ current : Nat) (before : current < end_)
include before

theorem scan_plain (c : UInt8) (rest : Bytes) (plain : c ≠ byte '%') :
    scanRange end_ current (c :: rest) = (scanRange end_ (current + 1) rest).behind [current] [plusToSpace c] := by
  rw [scanRange.eq_def]
  exact (if_neg (Nat.ne_of_lt before)).trans (if_neg plain)

theorem scan_escape (high low : UInt8) (after : Bytes) (some_ : high ≠ 0 ∧ low ≠ 0) :
    scanRange end_ current (byte '%' :: high :: low :: after) =
      (scanRange end_ (current + 3) after).behind [current, current + 1, current + 2] [joined high low] := by
  rw [scanRange, if_neg (Nat.ne_of_lt before), if_pos rfl, if_neg some_.1, if_neg some_.2]

-- A 0 at once behind the '%' keeps the scan from looking at the second byte.
theorem scan_high_zero (rest : Bytes) :
    scanRange end_ current (byte '%' :: 0 :: rest) = (scanRange end_ (current + 1) (0 :: rest)).behind [current, current + 1] [] := by
  cases rest with
  | nil => rw [scanRange, if_neg (Nat.ne_of_lt before), if_pos rfl, if_pos rfl]
  | cons low after => rw [scanRange, if_neg (Nat.ne_of_lt before), if_pos rfl, if_pos rfl]

theorem scan_low_zero (high : UInt8) (after : Bytes) (some_ : high ≠ 0) :
    scanRange end_ current (byte '%' :: high :: 0 :: after) =
      (scanRange end_ (current + 1) (high :: 0 :: after)).behind [current, current + 1, current + 2] [] := by
  rw [scanRange, if_neg (Nat.ne_of_lt before), if_pos rfl, if_neg some_, if_pos rfl]

theorem scan_looks_further (high : UInt8) (rest : Bytes) (some_ : high ≠ 0) :
    current + 2 ∈ (scanRange end_ current (byte '%' :: high :: rest)).reads := by
  cases rest with
  | nil => simp [scanRange, Nat.ne_of_lt before, some_]
  | cons low after =>
      by_cases zero : low = 0
      · subst zero
        simp [scan_low_zero end_ current before high after some_, Scan.behind]
      · simp [scan_escape end_ current before high low after ⟨some_, zero⟩, Scan.behind]

theorem scan_looks (rest : Bytes) : current + 1 ∈ (scanRange end_ current (byte '%' :: rest)).reads := by
  cases rest with
  | nil => simp [scanRange, Nat.ne_of_lt before]
  | cons high rest =>
      by_cases zero : high = 0
      · subst zero
        simp [scan_high_zero end_ current before rest, Scan.behind]
      · cases rest with
        | nil => simp [scanRange, Nat.ne_of_lt before, zero]
        | cons low after =>
            by_cases second : low = 0
            · subst second
              simp [scan_low_zero end_ current before high after zero, Scan.behind]
            · simp [scan_escape end_ current before high low after ⟨zero, second⟩, Scan.behind]

end Steps

theorem scan_inside (range after : Bytes) (current end_ : Nat) (ends : end_ = current + range.length)
    (inside : EscapesInside range) : (scanRange end_ current (range ++ after)).Within end_ (urlDecode range) := by
  fun_induction EscapesInside range generalizing current with
  | case1 =>
      obtain rfl : end_ = current := ends
      rw [List.nil_append, scan_end]
      exact ⟨by simp, rfl⟩
  | case2 high low rest some_ ih =>
      simp only [List.length_cons] at ends
      have decoded : urlDecode (byte '%' :: high :: low :: rest) = [joined high low] ++ urlDecode rest := by
        rw [urlDecode, if_pos rfl, if_pos some_]
        rfl
      have step := scan_escape end_ current (by omega) high low (rest ++ after) some_
      rw [List.cons_append, List.cons_append, List.cons_append, step, decoded]
      exact within_behind _ end_ _ _ _ (ih (current + 3) (by omega) inside) (all_before end_ current 3 (by omega))
  | case3 high low rest none_ ih =>
      simp only [List.length_cons] at ends
      have decoded : urlDecode (byte '%' :: high :: low :: rest) = [] ++ urlDecode (high :: low :: rest) := by
        rw [urlDecode, if_pos rfl, if_neg none_]
        rfl
      have later := ih (current + 1) (by simp only [List.length_cons]; omega) inside
      rw [List.cons_append, List.cons_append] at later
      rw [List.cons_append, List.cons_append, List.cons_append, decoded]
      by_cases zero : high = 0
      · subst zero
        rw [scan_high_zero end_ current (by omega)]
        exact within_behind _ end_ _ _ _ later (all_before end_ current 2 (by omega))
      · obtain rfl : low = 0 := not_not.mp fun other => none_ ⟨zero, other⟩
        rw [scan_low_zero end_ current (by omega) high _ zero]
        exact within_behind _ end_ _ _ _ later (all_before end_ current 3 (by omega))
  | case4 high =>
      subst inside
      obtain rfl : end_ = current + 1 + 1 := ends
      have first := scan_high_zero (current + 1 + 1) current (Nat.lt_succ_of_lt (Nat.lt_succ_self current)) after
      have second := scan_plain (current + 1 + 1) (current + 1) (Nat.lt_succ_self _) 0 after (by decide)
      have done : (⟨[], some []⟩ : Scan).Within (current + 1 + 1) [] := ⟨by simp, rfl⟩
      rw [List.cons_append, List.singleton_append, first, second, scan_end]
      exact within_behind _ _ [0] [] _ (within_behind _ _ [] [0] _ done (all_before _ (current + 1) 1 (Nat.le_refl _)))
        (all_before _ current 2 (Nat.le_refl _))
  | case5 => exact inside.elim
  | case6 c rest plain ih =>
      rw [List.length_cons] at ends
      rw [List.cons_append, scan_plain end_ current (by omega) c _ plain, url_decode_default c rest plain]
      exact within_behind _ end_ _ [plusToSpace c] _ (ih (current + 1) (by omega) inside) (all_before end_ current 1 (by omega))

theorem scan_strays (range after : Bytes) (current end_ : Nat) (ends : end_ = current + range.length)
    (cut : ¬ EscapesInside range) : (scanRange end_ current (range ++ after)).Strays end_ := by
  fun_induction EscapesInside range generalizing current with
  | case1 => exact absurd trivial cut
  | case2 high low rest some_ ih =>
      simp only [List.length_cons] at ends
      have step := scan_escape end_ current (by omega) high low (rest ++ after) some_
      rw [List.cons_append, List.cons_append, List.cons_append, step]
      exact strays_behind _ end_ _ _ (ih (current + 3) (by omega) cut)
  | case3 high low rest none_ ih =>
      simp only [List.length_cons] at ends
      have later := ih (current + 1) (by simp; omega) cut
      simp only [List.cons_append] at later ⊢
      by_cases zero : high = 0
      · subst zero
        rw [scan_high_zero end_ current (by omega)]
        exact strays_behind _ end_ _ _ later
      · obtain rfl : low = 0 := not_not.mp fun other => none_ ⟨zero, other⟩
        rw [scan_low_zero end_ current (by omega) high _ zero]
        exact strays_behind _ end_ _ _ later
  | case4 high =>
      simp only [List.length_cons, List.length_nil] at ends
      exact ⟨current + 2, scan_looks_further end_ current (by omega) high after cut, by omega⟩
  | case5 =>
      simp only [List.length_cons, List.length_nil] at ends
      exact ⟨current + 1, scan_looks end_ current (by omega) after, by omega⟩
  | case6 c rest plain ih =>
      rw [List.length_cons] at ends
      rw [List.cons_append, scan_plain end_ current (by omega) c _ plain]
      exact strays_behind _ end_ _ _ (ih (current + 1) (by omega) cut)

theorem url_decode_range_iff (range after : Bytes) :
    ((∀ place ∈ (urlDecodeRange (range ++ after) range.length).reads, place < range.length) ∧
      (urlDecodeRange (range ++ after) range.length).text = some (urlDecode range)) ↔ EscapesInside range := by
  constructor
  · rintro ⟨within, -⟩
    by_contra cut
    obtain ⟨place, member, outside⟩ := scan_strays range after 0 range.length (Nat.zero_add _).symm cut
    exact absurd (within place member) (Nat.not_lt.mpr outside)
  · exact scan_inside range after 0 range.length (Nat.zero_add _).symm

theorem url_decode_range_runs_over :
    ¬ ((∀ place ∈ (urlDecodeRange ([byte '%', byte '4'] ++ [byte '1', 0]) 2).reads, place < 2) ∧
      (urlDecodeRange ([byte '%', byte '4'] ++ [byte '1', 0]) 2).text = some (urlDecode [byte '%', byte '4'])) := by
  decide

end Libx.Url

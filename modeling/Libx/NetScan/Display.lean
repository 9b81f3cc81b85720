import Libx.NetScan.Report
import Mathlib.Data.Nat.Digits.Lemmas

set_option autoImplicit false

namespace Libx.NetScan

-- std::setw: blanks on the left.
def setw (width : Nat) (text : Text) : Text := text.leftpad width ' '

def decimal (n : Nat) : Text := Nat.toDigits 10 n

def Elem.displayTimes (elem : Elem) : Text :=
  if elem.timeInInt < elem.timeOutInt then
    'i' :: elem.timeIn ++ if elem.timeOut ≠ [] then " o".toList ++ elem.timeOut ++ [' '] else setw 21 [' ']
  else
    (if elem.timeOut ≠ [] then 'o' :: elem.timeOut ++ [' '] else []) ++ ('i' :: elem.timeIn ++ [' ']) ++
      if elem.timeOut = [] then setw 21 [' '] else []

def Elem.displayElem (elem : Elem) : Text :=
  (if elem.isOpen then '1' else '0') :: ' ' :: setw 15 elem.ip ++ ' ' :: elem.mac ++ ' ' :: elem.displayTimes ++
    setw 4 (decimal elem.setOpenSz.toNat) ++ elem.what

-- The private display; `idx` counts the lines of one kind, `pos` is the place in _elems.
def Elem.displayLine (elem : Elem) (idx pos : Nat) : Text :=
  setw 2 (decimal idx) ++ '.' :: setw 2 (decimal pos) ++ '.' :: elem.displayElem ++ ['\n']

-- One of the two loops of the public display.
def displayPass (isOpen : Bool) : Nat → Nat → List Elem → Text
  | _, _, [] => []
  | idx, i, elem :: rest =>
      if elem.isOpen = isOpen then elem.displayLine (idx + 1) (i + 1) ++ displayPass isOpen (idx + 1) (i + 1) rest
      else displayPass isOpen idx (i + 1) rest

def Db.display (db : Db) (now : Text) : Text :=
  now ++ ['\n'] ++ displayPass false 0 0 db.elems ++ displayPass true 0 0 db.elems

structure Shown where
  idx : Nat
  pos : Nat
  elem : Elem

def Shown.line (shown : Shown) : Text := shown.elem.displayLine shown.idx shown.pos

def showPass (isOpen : Bool) : Nat → Nat → List Elem → List Shown
  | _, _, [] => []
  | idx, i, elem :: rest =>
      if elem.isOpen = isOpen then ⟨idx + 1, i + 1, elem⟩ :: showPass isOpen (idx + 1) (i + 1) rest
      else showPass isOpen idx (i + 1) rest

section Pass

variable (isOpen : Bool)

theorem display_pass_lines (idx i : Nat) (elems : List Elem) :
    displayPass isOpen idx i elems = (showPass isOpen idx i elems).flatMap Shown.line := by
  induction elems generalizing idx i with
  | nil => rfl
  | cons elem rest ih =>
      rw [displayPass, showPass]
      by_cases kind : elem.isOpen = isOpen
      · rw [if_pos kind, if_pos kind, List.flatMap_cons, ← ih]
        rfl
      · rw [if_neg kind, if_neg kind, ih]

theorem show_pass_elems (idx i : Nat) (elems : List Elem) :
    (showPass isOpen idx i elems).map Shown.elem = elems.filter (·.isOpen = isOpen) := by
  induction elems generalizing idx i with
  | nil => rfl
  | cons elem rest ih =>
      rw [showPass]
      by_cases kind : elem.isOpen = isOpen
      · rw [if_pos kind, List.filter_cons_of_pos (by simpa using kind), List.map_cons, ih]
      · rw [if_neg kind, List.filter_cons_of_neg (by simpa using kind), ih]

theorem show_pass_numbers (idx i : Nat) (elems : List Elem) :
    (showPass isOpen idx i elems).map Shown.idx = List.range' (idx + 1) (elems.filter (·.isOpen = isOpen)).length := by
  induction elems generalizing idx i with
  | nil => rfl
  | cons elem rest ih =>
      rw [showPass]
      by_cases kind : elem.isOpen = isOpen
      · rw [if_pos kind, List.filter_cons_of_pos (by simpa using kind), List.map_cons, ih, List.length_cons, List.range'_succ]
      · rw [if_neg kind, List.filter_cons_of_neg (by simpa using kind), ih]

theorem show_pass_places (idx i : Nat) (front rest : List Elem) (place : front.length = i) :
    ∀ shown ∈ showPass isOpen idx i rest, 1 ≤ shown.pos ∧ (front ++ rest)[shown.pos - 1]? = some shown.elem := by
  induction rest generalizing idx i front with
  | nil => exact fun _ absent => absurd absent List.not_mem_nil
  | cons elem rest ih =>
      have later := fun idx => ih idx (i + 1) (front ++ [elem]) (by simp [place])
      simp only [List.append_assoc, List.singleton_append] at later
      rw [showPass]
      by_cases kind : elem.isOpen = isOpen
      · rw [if_pos kind]
        intro shown member
        rcases List.mem_cons.mp member with rfl | inside
        · exact ⟨Nat.succ_le_succ (Nat.zero_le i), by simp [← place]⟩
        · exact later (idx + 1) shown inside
      · rw [if_neg kind]
        exact later idx

end Pass

-- A property that the three ways to write an element keep holds of the
-- elements of every database a run comes to.
section Elements

variable (holds : Elem → Prop) (allowed : Scan → Prop)
variable (new : ∀ scan, allowed scan → ∀ macip ∈ scan.triples, ∀ j, holds (Elem.new (scan.adding j) macip.1 macip.2.1 macip.2.2))
variable (closed : ∀ scan, allowed scan → ∀ elem i, holds elem → holds (elem.closed (scan.closing i)))
variable (opened : ∀ scan, allowed scan → ∀ macip ∈ scan.triples, ∀ elem j, holds elem → holds (elem.opened (scan.adding j) macip.2.1))

include new opened in
theorem add_triples_elems (scan : Scan) (legal : allowed scan) (triples : List MacIp) (part : ∀ macip ∈ triples, macip ∈ scan.triples)
    (j : Nat) (seen : Seen) (db after : Db) (tracks : Tracks seen db) (elems : ∀ elem ∈ db.elems, holds elem) (changed : Bool)
    (run : db.addTriples scan.adding j triples = .ok (changed, after)) : ∀ elem ∈ after.elems, holds elem := by
  induction triples generalizing j seen db changed with
  | nil =>
      obtain ⟨_, rfl⟩ := Prod.mk.inj (Except.ok.inj run)
      exact elems
  | cons macip rest ih =>
      obtain ⟨here, middle, later, first, others, _⟩ := add_triples_cons scan.adding j macip rest db after changed run
      have inside := part macip List.mem_cons_self
      have tracked := add_triple_tracks seen db tracks (scan.adding j) macip here middle first
      refine ih (fun other member => part other (List.mem_cons_of_mem macip member)) (j + 1) (seen.add macip) middle tracked ?_ later others
      intro elem member
      rcases add_triple_cases seen db tracks (scan.adding j) macip with ⟨_, creates⟩ | ⟨idx, old, _, at_, _, does⟩
      · rw [creates] at first
        obtain ⟨_, rfl⟩ := Prod.mk.inj (Except.ok.inj first)
        rcases created_mem (scan.adding j) macip db elem member with before | rfl
        · exact elems elem before
        · exact new scan legal macip inside j
      · rw [does] at first
        split_ifs at first
        · obtain ⟨_, rfl⟩ := Prod.mk.inj (Except.ok.inj first)
          exact elems elem member
        · obtain ⟨_, rfl⟩ := Prod.mk.inj (Except.ok.inj first)
          rcases List.mem_or_eq_of_mem_set member with before | rfl
          · exact elems elem before
          · exact opened scan legal macip inside old j (elems old (List.mem_of_getElem? at_))

include new closed opened in
theorem scan_elems (scan : Scan) (legal : allowed scan) (seen : Seen) (db after : Db) (tracks : Tracks seen db)
    (elems : ∀ elem ∈ db.elems, holds elem) (run : scanStep scan db = .ok after) : ∀ elem ∈ after.elems, holds elem := by
  obtain ⟨⟨changed, made⟩, completed, rfl⟩ := (Fallible.map_ok_iff _ _ _).mp run
  obtain ⟨_, added, adds, _⟩ := add_mac_ip_ok scan db made changed completed
  refine add_triples_elems holds allowed new opened scan legal scan.triples (fun _ member => member) 0 (seen.enter scan) _ made
    (enter_tracks seen db scan tracks) ?_ added adds
  intro after member
  obtain ⟨elem, old, k, rfl⟩ := closed_from_mem scan.macs scan.closing 0 db.elems after member
  rw [Elem.afterPass]
  split
  · exact closed scan legal elem k (elems elem old)
  · exact elems elem old

include new closed opened in
theorem run_elems (scans : List Scan) (legal : ∀ scan ∈ scans, allowed scan) (db : Db) (run : runScans scans = .ok db) :
    ∀ elem ∈ db.elems, holds elem := by
  suffices from_ : ∀ (scans : List Scan) (seen : Seen) (start : Db), (∀ scan ∈ scans, allowed scan) → Tracks seen start →
      (∀ elem ∈ start.elems, holds elem) → Fallible.run scanStep scans start = .ok db → ∀ elem ∈ db.elems, holds elem by
    exact from_ scans nothingSeen Db.empty legal empty_tracks (fun _ absent => absurd absent List.not_mem_nil) run
  intro scans
  induction scans with
  | nil =>
      intro seen start _ _ elems same
      obtain rfl := Except.ok.inj same
      exact elems
  | cons scan scans ih =>
      intro seen start legal tracks elems completed
      obtain ⟨next, taken, rest⟩ := (Fallible.bind_ok_iff _ _ _).mp completed
      exact ih (seen.scan scan) next (fun other member => legal other (List.mem_cons_of_mem scan member))
        (scan_tracks seen scan start next tracks taken)
        (scan_elems holds allowed new closed opened scan (legal scan List.mem_cons_self) seen start next tracks elems taken) rest

end Elements

-- The widths the report is laid out for: those of a MAC, of an IPv4 address
-- and of what pbx::now() gives.
structure Scan.Sized (scan : Scan) : Prop where
  triples : ∀ macip ∈ scan.triples, macip.1.length = 17 ∧ macip.2.1.length ≤ 15
  times : ∀ i, (scan.closing i).text.length = 19 ∧ (scan.adding i).text.length = 19

structure Elem.Sized (elem : Elem) : Prop where
  mac : elem.mac.length = 17
  ip : elem.ip.length ≤ 15
  timeIn : elem.timeIn.length = 19
  timeOut : elem.timeOut.length = 19 ∨ elem.timeOut = [] ∧ elem.timeOutInt = 0

theorem run_sized (scans : List Scan) (sized : ∀ scan ∈ scans, scan.Sized) (db : Db) (run : runScans scans = .ok db) :
    ∀ elem ∈ db.elems, elem.Sized := by
  refine run_elems Elem.Sized Scan.Sized ?_ ?_ ?_ scans sized db run
  · intro scan legal macip inside j
    exact ⟨(legal.triples macip inside).1, (legal.triples macip inside).2, (legal.times j).2, .inr ⟨rfl, rfl⟩⟩
  · intro scan legal elem i own
    exact ⟨own.mac, own.ip, own.timeIn, .inl (legal.times i).1⟩
  · intro scan legal macip inside elem j own
    exact ⟨own.mac, (legal.triples macip inside).2, (legal.times j).2, own.timeOut⟩

section Columns

theorem setw_length (width : Nat) (text : Text) (fits : text.length ≤ width) : (setw width text).length = width := by
  rw [setw, List.length_leftpad, Nat.max_eq_left fits]

theorem decimal_length (width n : Nat) (positive : 0 < width) (small : n < 10 ^ width) : (decimal n).length ≤ width :=
  (Nat.length_toDigits_le_iff (by decide) positive).mpr small

variable (elem : Elem) (sized : elem.Sized)
include sized

theorem display_times_length : elem.displayTimes.length = 42 := by
  have blanks : (setw 21 [' ']).length = 21 := setw_length 21 [' '] (by decide)
  have timeIn := sized.timeIn
  rcases sized.timeOut with out | ⟨never, zero⟩
  · have some_ : elem.timeOut ≠ [] := by
      intro none_
      simp [none_] at out
    rw [Elem.displayTimes, if_pos some_, if_pos some_, if_neg some_]
    by_cases order : elem.timeInInt < elem.timeOutInt
    · rw [if_pos order]
      simp [timeIn, out]
    · rw [if_neg order]
      simp [timeIn, out]
  · have order : ¬ elem.timeInInt < elem.timeOutInt := by
      rw [zero]
      exact UInt32.not_lt.mpr (UInt32.zero_le)
    rw [Elem.displayTimes, if_neg order]
    simp [never, timeIn, blanks]

theorem display_line_columns (idx pos : Nat) (idxSmall : idx < 100) (posSmall : pos < 100) (count : elem.setOpenSz.toNat < 10000) :
    ∃ front opens, front.length = 24 ∧ opens.length = 4 ∧
      elem.displayLine idx pos = front ++ elem.mac ++ ' ' :: elem.displayTimes ++ opens ++ elem.what ++ ['\n'] := by
  have first := setw_length 2 _ (decimal_length 2 idx (by decide) idxSmall)
  have second := setw_length 2 _ (decimal_length 2 pos (by decide) posSmall)
  have address := setw_length 15 _ sized.ip
  refine ⟨setw 2 (decimal idx) ++ '.' :: setw 2 (decimal pos) ++ '.' :: (if elem.isOpen then '1' else '0') :: ' ' ::
    setw 15 elem.ip ++ [' '], setw 4 (decimal elem.setOpenSz.toNat), ?_, ?_, ?_⟩
  · simp [first, second, address]
  · exact setw_length 4 _ (decimal_length 4 _ (by decide) count)
  · simp [Elem.displayLine, Elem.displayElem]

end Columns

def scanAt (time : Text) (secs : UInt32) (triples : List MacIp) : Scan := ⟨triples, fun _ => ⟨time, secs⟩, fun _ => ⟨time, secs⟩⟩

theorem scan_at_sized (time : Text) (secs : UInt32) (triples : List MacIp) (wide : time.length = 19)
    (widths : ∀ macip ∈ triples, macip.1.length = 17 ∧ macip.2.1.length ≤ 15) : (scanAt time secs triples).Sized :=
  ⟨widths, fun _ => ⟨wide, wide⟩⟩

end Libx.NetScan

import Libx.NetScan.Report

set_option autoImplicit false

namespace Libx.NetScan

def Scan.Reads (scan : Scan) (secs : UInt32) : Prop :=
  (∃ i, (scan.closing i).secs = secs) ∨ ∃ j, (scan.adding j).secs = secs

def Increasing (scans : List Scan) : Prop :=
  scans.Pairwise fun earlier later => ∀ t u, earlier.Reads t → later.Reads u → t < u

-- The devices first seen when the clock read 0, the value _time_out_int starts with.
def zerosWith (now : Instant) (macip : MacIp) (seen : Seen) (zeros : List Text) : List Text :=
  if now.secs = 0 ∧ macip.1 ∉ seen.addresses.map Prod.fst then macip.1 :: zeros else zeros

def zerosAfter (adding : Nat → Instant) : Nat → List MacIp → Seen → List Text → List Text
  | _, [], _, zeros => zeros
  | j, macip :: rest, seen, zeros => zerosAfter adding (j + 1) rest (seen.add macip) (zerosWith (adding j) macip seen zeros)

def TriplesSettled : List MacIp → Seen → Prop
  | [], _ => True
  | macip :: rest, seen =>
      (macip.1 ∈ seen.online → lastHolder seen.addresses macip.2.1 = some macip.1) ∧ TriplesSettled rest (seen.add macip)

def ScansSettled : List Scan → Seen → List Text → Prop
  | [], _, _ => True
  | scan :: rest, seen, zeros =>
      (∀ mac ∈ zeros, mac ∈ scan.macs) ∧ TriplesSettled scan.triples (seen.enter scan) ∧
        ScansSettled rest (seen.scan scan) (zerosAfter scan.adding 0 scan.triples (seen.enter scan) zeros)

-- The time stamps of the elements; `awaited` are the MACs of the triples that
-- the current call has yet to add, `future` the readings of the calls after it.
structure Timed (adding : Nat → Instant) (awaited : List Text) (future : UInt32 → Prop) (seen : Seen) (zeros : List Text)
    (db : Db) : Prop where
  opens : ∀ elem ∈ db.elems, elem.isOpen = true → (elem.timeOutInt < elem.timeInInt ↔ elem.mac ∉ zeros)
  closes : ∀ elem ∈ db.elems, elem.isOpen = false →
    elem.timeInInt < elem.timeOutInt ∧ (elem.mac ∈ awaited → ∀ j, elem.timeOutInt < (adding j).secs)
  past : ∀ elem ∈ db.elems, ∀ t, future t → elem.timeInInt < t ∧ elem.timeOutInt < t
  zeros_online : ∀ mac ∈ zeros, mac ∈ seen.online

section Adding

variable (adding : Nat → Instant) (awaited : List Text) (future : UInt32 → Prop) (seen : Seen) (zeros : List Text) (db : Db)
variable (tracks : Tracks seen db) (j : Nat) (macip : MacIp)
variable (timed : Timed adding (macip.1 :: awaited) future seen zeros db) (before : ∀ t, future t → (adding j).secs < t)
include tracks

theorem addressed (mac : Text) (idx : Nat) (key : db.macKeys mac = some idx) : mac ∈ seen.addresses.map Prod.fst := by
  obtain ⟨ip, member⟩ := (tracks.known mac).mp ⟨idx, key⟩
  exact List.mem_map.mpr ⟨(mac, ip), member, rfl⟩

theorem unaddressed (mac : Text) (new : db.macKeys mac = none) : mac ∉ seen.addresses.map Prod.fst := by
  intro member
  obtain ⟨⟨_, ip⟩, inside, rfl⟩ := List.mem_map.mp member
  exact new_unseen seen db tracks _ ip new inside

theorem zeros_known (idx : Nat) (now : Instant) (key : db.macKeys macip.1 = some idx) : zerosWith now macip seen zeros = zeros :=
  if_neg fun both => both.2 (addressed seen db tracks macip.1 idx key)

include timed

omit tracks in
theorem closed_still (elem : Elem) (member : elem ∈ db.elems) (closed : elem.isOpen = false) :
    elem.timeInInt < elem.timeOutInt ∧ (elem.mac ∈ awaited → ∀ j, elem.timeOutInt < (adding j).secs) := by
  obtain ⟨early, awaits⟩ := timed.closes elem member closed
  exact ⟨early, fun inside => awaits (List.mem_cons_of_mem _ inside)⟩

include before

theorem created_timed (new : db.macKeys macip.1 = none) :
    Timed adding awaited future (seen.add macip) (zerosWith (adding j) macip seen zeros) (db.created (adding j) macip) := by
  have fresh := unaddressed seen db tracks macip.1 new
  have offline := new_offline seen db tracks macip.1 new
  have zerosNow (mac : Text) : mac ∈ zerosWith (adding j) macip seen zeros ↔
      (mac = macip.1 ∧ (adding j).secs = 0) ∨ mac ∈ zeros := by
    rw [zerosWith]
    split <;> simp_all
  have other := new_unlisted seen db tracks macip.1 new
  have members := created_mem (adding j) macip db
  constructor
  · intro elem member isOpen
    rw [zerosNow]
    rcases members elem member with old | rfl
    · simp [timed.opens elem old isOpen, other elem old]
    · have notZero : macip.1 ∉ zeros := fun zero => offline (timed.zeros_online macip.1 zero)
      simp [Elem.new, notZero, UInt32.pos_iff_ne_zero]
  · intro elem member closed
    rcases members elem member with old | rfl
    · exact closed_still adding awaited future seen zeros db macip timed elem old closed
    · simp [Elem.new] at closed
  · intro elem member t later
    rcases members elem member with old | rfl
    · exact timed.past elem old t later
    · have reading := before t later
      exact ⟨reading, UInt32.lt_of_le_of_lt UInt32.zero_le reading⟩
  · intro mac zero
    rcases (zerosNow mac).mp zero with ⟨rfl, _⟩ | old
    · exact List.mem_cons_self
    · exact List.mem_cons_of_mem _ (timed.zeros_online mac old)

theorem reopened_timed (idx : Nat) (elem : Elem) (key : db.macKeys macip.1 = some idx) (here : db.elems[idx]? = some elem)
    (own : elem.mac = macip.1) (closed : ¬ elem.isOpen = true) :
    Timed adding awaited future (seen.add macip) (zerosWith (adding j) macip seen zeros)
      (db.reopened idx elem (adding j) macip.2.1) := by
  have old := List.mem_of_getElem? here
  have offline : macip.1 ∉ seen.online := fun online => closed ((tracks.opened elem old).mpr (own ▸ online))
  have notZero : macip.1 ∉ zeros := fun zero => offline (timed.zeros_online macip.1 zero)
  have late := (timed.closes elem old (by simpa using closed)).2 (own ▸ List.mem_cons_self) j
  have members (other : Elem) (member : other ∈ (db.reopened idx elem (adding j) macip.2.1).elems) :
      other ∈ db.elems ∨ other = elem.opened (adding j) macip.2.1 := List.mem_or_eq_of_mem_set member
  rw [zeros_known seen zeros db tracks macip idx (adding j) key]
  constructor
  · intro other member isOpen
    rcases members other member with kept | rfl
    · exact timed.opens other kept isOpen
    · exact iff_of_true late (show elem.mac ∉ zeros from own ▸ notZero)
  · intro other member isClosed
    rcases members other member with kept | rfl
    · exact closed_still adding awaited future seen zeros db macip timed other kept isClosed
    · simp [Elem.opened] at isClosed
  · intro other member t later
    rcases members other member with kept | rfl
    · exact timed.past other kept t later
    · exact ⟨before t later, (timed.past elem old t later).2⟩
  · intro mac zero
    exact List.mem_cons_of_mem _ (timed.zeros_online mac zero)

omit before in
theorem stays_timed (idx : Nat) (key : db.macKeys macip.1 = some idx) :
    Timed adding awaited future (seen.add macip) (zerosWith (adding j) macip seen zeros) db := by
  rw [zeros_known seen zeros db tracks macip idx (adding j) key]
  constructor
  · exact timed.opens
  · exact closed_still adding awaited future seen zeros db macip timed
  · exact timed.past
  · intro mac zero
    exact List.mem_cons_of_mem _ (timed.zeros_online mac zero)

theorem add_triple_settled :
    ((macip.1 ∈ seen.online → lastHolder seen.addresses macip.2.1 = some macip.1) →
      ∃ changed after, db.addTriple (adding j) macip = .ok (changed, after) ∧
        Timed adding awaited future (seen.add macip) (zerosWith (adding j) macip seen zeros) after) ∧
    (¬ (macip.1 ∈ seen.online → lastHolder seen.addresses macip.2.1 = some macip.1) →
      db.addTriple (adding j) macip = .error .assertion) := by
  rcases add_triple_cases seen db tracks (adding j) macip with ⟨new, creates⟩ | ⟨idx, elem, key, here, own, does⟩
  · refine ⟨fun _ => ⟨true, _, creates, created_timed adding awaited future seen zeros db tracks j macip timed before new⟩, ?_⟩
    intro disturbed
    exact absurd (Classical.not_imp.mp disturbed).1 (new_offline seen db tracks macip.1 new)
  · have old := List.mem_of_getElem? here
    by_cases isOpen : elem.isOpen = true
    · have online : macip.1 ∈ seen.online := own ▸ (tracks.opened elem old).mp isOpen
      rw [does, if_pos isOpen]
      refine ⟨fun settled => ?_, fun disturbed => ?_⟩
      · rw [if_pos (settled online)]
        exact ⟨false, db, rfl, stays_timed adding awaited future seen zeros db tracks j macip timed idx key⟩
      · rw [if_neg (Classical.not_imp.mp disturbed).2]
    · have offline : macip.1 ∉ seen.online := fun online => isOpen ((tracks.opened elem old).mpr (own ▸ online))
      have early := (timed.closes elem old (by simpa using isOpen)).1
      rw [does, if_neg isOpen, if_pos early]
      refine ⟨fun _ => ⟨true, _, rfl, ?_⟩, fun disturbed => absurd (fun online => absurd online offline) disturbed⟩
      exact reopened_timed adding awaited future seen zeros db tracks j macip timed before idx elem key here own isOpen

end Adding

theorem add_triples_settled (adding : Nat → Instant) (future : UInt32 → Prop) (triples : List MacIp) (j : Nat) (seen : Seen)
    (zeros : List Text) (db : Db) (tracks : Tracks seen db)
    (timed : Timed adding (triples.map Prod.fst) future seen zeros db)
    (before : ∀ j t, future t → (adding j).secs < t) :
    (TriplesSettled triples seen →
      ∃ changed after, db.addTriples adding j triples = .ok (changed, after) ∧
        Timed adding [] future (triples.foldl Seen.add seen) (zerosAfter adding j triples seen zeros) after) ∧
    (¬ TriplesSettled triples seen → db.addTriples adding j triples = .error .assertion) := by
  induction triples generalizing j seen zeros db with
  | nil => exact ⟨fun _ => ⟨false, db, rfl, timed⟩, fun disturbed => absurd trivial disturbed⟩
  | cons macip rest ih =>
      obtain ⟨adds, aborts⟩ := add_triple_settled adding (rest.map Prod.fst) future seen zeros db tracks j macip timed (before j)
      by_cases here : macip.1 ∈ seen.online → lastHolder seen.addresses macip.2.1 = some macip.1
      · obtain ⟨changed, middle, added, middleTimed⟩ := adds here
        have middleTracks := add_triple_tracks seen db tracks (adding j) macip changed middle added
        obtain ⟨others, othersAbort⟩ := ih (j + 1) (seen.add macip) _ middle middleTracks middleTimed
        refine ⟨fun settled => ?_, fun disturbed => ?_⟩
        · obtain ⟨later, after, run, afterTimed⟩ := others settled.2
          refine ⟨changed || later, after, ?_, afterTimed⟩
          simp [Db.addTriples, added, run]
        · have run := othersAbort fun settled => disturbed ⟨here, settled⟩
          simp [Db.addTriples, added, run]
      · refine ⟨fun settled => absurd settled.1 here, fun _ => ?_⟩
        simp [Db.addTriples, aborts here]

theorem closable_iff (adding : Nat → Instant) (awaited : List Text) (future : UInt32 → Prop) (seen : Seen) (zeros : List Text)
    (db : Db) (tracks : Tracks seen db) (timed : Timed adding awaited future seen zeros db) (macs : List Text) :
    Closable macs db.elems ↔ ∀ mac ∈ zeros, mac ∈ macs := by
  constructor
  · intro closable mac zero
    by_contra absent
    obtain ⟨idx, key⟩ := tracks.present mac (timed.zeros_online mac zero)
    obtain ⟨elem, here, own⟩ := key_elem seen db tracks mac idx key
    have old := List.mem_of_getElem? here
    have isOpen := (tracks.opened elem old).mpr (own ▸ timed.zeros_online mac zero)
    have away : elem.away macs = true := decide_eq_true ⟨isOpen, own ▸ absent⟩
    exact (timed.opens elem old isOpen).mp (closable elem old away) (own ▸ zero)
  · intro inside elem old away
    obtain ⟨isOpen, absent⟩ := of_decide_eq_true away
    exact (timed.opens elem old isOpen).mpr fun zero => absent (inside elem.mac zero)

theorem after_pass_cases (macs : List Text) (now : Instant) (elem : Elem) :
    (elem.isOpen = true ∧ elem.mac ∉ macs ∧ elem.afterPass macs now = elem.closed now) ∨ elem.afterPass macs now = elem := by
  by_cases away : elem.away macs = true
  · obtain ⟨isOpen, absent⟩ := of_decide_eq_true away
    exact .inl ⟨isOpen, absent, by rw [Elem.afterPass, if_pos away]⟩
  · exact .inr (by rw [Elem.afterPass, if_neg away])

theorem enter_timed (adding : Nat → Instant) (awaited : List Text) (future later : UInt32 → Prop) (seen : Seen)
    (zeros : List Text) (db : Db) (scan : Scan) (timed : Timed adding awaited future seen zeros db)
    (inside : ∀ mac ∈ zeros, mac ∈ scan.macs) (soon : ∀ t, scan.Reads t → future t) (after : ∀ t, later t → future t)
    (before : ∀ t u, scan.Reads t → later u → t < u) :
    Timed scan.adding scan.macs later (seen.enter scan) zeros
      { db with elems := closedFrom scan.macs scan.closing 0 db.elems } := by
  constructor
  · intro next member isOpen
    obtain ⟨elem, old, k, rfl⟩ := closed_from_mem scan.macs scan.closing 0 db.elems next member
    rcases after_pass_cases scan.macs (scan.closing k) elem with ⟨_, _, away⟩ | kept
    · rw [away] at isOpen
      simp [Elem.closed] at isOpen
    · rw [kept] at isOpen ⊢
      exact timed.opens elem old isOpen
  · intro next member closed
    obtain ⟨elem, old, k, rfl⟩ := closed_from_mem scan.macs scan.closing 0 db.elems next member
    rcases after_pass_cases scan.macs (scan.closing k) elem with ⟨_, absent, away⟩ | kept
    · rw [away]
      exact ⟨(timed.past elem old _ (soon _ (.inl ⟨k, rfl⟩))).1, fun again => absurd again absent⟩
    · rw [kept] at closed ⊢
      exact ⟨(timed.closes elem old closed).1, fun _ j => (timed.past elem old _ (soon _ (.inr ⟨j, rfl⟩))).2⟩
  · intro next member t reading
    obtain ⟨elem, old, k, rfl⟩ := closed_from_mem scan.macs scan.closing 0 db.elems next member
    have earlier := timed.past elem old t (after t reading)
    rcases after_pass_cases scan.macs (scan.closing k) elem with ⟨_, _, away⟩ | kept
    · rw [away]
      exact ⟨earlier.1, before _ t (.inl ⟨k, rfl⟩) reading⟩
    · rw [kept]
      exact earlier
  · intro mac zero
    exact List.mem_filter.mpr ⟨timed.zeros_online mac zero, decide_eq_true (inside mac zero)⟩

def ReadLater (scans : List Scan) (t : UInt32) : Prop := ∃ scan ∈ scans, scan.Reads t

theorem scan_settled (scan : Scan) (rest : List Scan) (increasing : Increasing (scan :: rest)) (adding : Nat → Instant)
    (awaited : List Text) (seen : Seen) (zeros : List Text) (db : Db) (tracks : Tracks seen db)
    (timed : Timed adding awaited (ReadLater (scan :: rest)) seen zeros db) :
    ((∀ mac ∈ zeros, mac ∈ scan.macs) ∧ TriplesSettled scan.triples (seen.enter scan) →
      ∃ after, scanStep scan db = .ok after ∧ Timed scan.adding [] (ReadLater rest) (seen.scan scan)
        (zerosAfter scan.adding 0 scan.triples (seen.enter scan) zeros) after) ∧
    (¬ ((∀ mac ∈ zeros, mac ∈ scan.macs) ∧ TriplesSettled scan.triples (seen.enter scan)) →
      scanStep scan db = .error .assertion) := by
  have earlier : ∀ t u, scan.Reads t → ReadLater rest u → t < u := by
    rintro t u reading ⟨later, member, laterReading⟩
    exact (List.pairwise_cons.mp increasing).1 later member t u reading laterReading
  have closable := closable_iff adding awaited _ seen zeros db tracks timed scan.macs
  by_cases inside : ∀ mac ∈ zeros, mac ∈ scan.macs
  · have entered := enter_timed adding awaited (ReadLater (scan :: rest)) (ReadLater rest) seen zeros db scan timed inside
      (fun t reading => ⟨scan, List.mem_cons_self, reading⟩)
      (fun t ⟨later, member, reading⟩ => ⟨later, List.mem_cons_of_mem _ member, reading⟩) earlier
    obtain ⟨adds, aborts⟩ := add_triples_settled scan.adding (ReadLater rest) scan.triples 0 (seen.enter scan) zeros _
      (enter_tracks seen db scan tracks) entered fun j t reading => earlier _ t (.inr ⟨j, rfl⟩) reading
    have closes := close_absent_ok scan.macs scan.closing 0 db.elems (closable.mpr inside)
    refine ⟨fun settled => ?_, fun disturbed => ?_⟩
    · obtain ⟨changed, after, run, afterTimed⟩ := adds settled.2
      refine ⟨after, ?_, afterTimed⟩
      simp [scanStep, Db.addMacIp, closes, run]
    · have run := aborts fun settled => disturbed ⟨inside, settled⟩
      simp [scanStep, Db.addMacIp, closes, run]
  · refine ⟨fun settled => absurd settled.1 inside, fun _ => ?_⟩
    have fails := close_absent_error scan.macs scan.closing 0 db.elems (mt closable.mp inside)
    simp [scanStep, Db.addMacIp, fails]

theorem scans_settled (scans : List Scan) (increasing : Increasing scans) (adding : Nat → Instant) (awaited : List Text)
    (seen : Seen) (zeros : List Text) (db : Db) (tracks : Tracks seen db)
    (timed : Timed adding awaited (ReadLater scans) seen zeros db) :
    (ScansSettled scans seen zeros → ∃ last, Fallible.run scanStep scans db = .ok last) ∧
      (¬ ScansSettled scans seen zeros → Fallible.run scanStep scans db = .error .assertion) := by
  induction scans generalizing adding awaited seen zeros db with
  | nil => exact ⟨fun _ => ⟨db, rfl⟩, fun disturbed => absurd trivial disturbed⟩
  | cons scan rest ih =>
      obtain ⟨takes, aborts⟩ := scan_settled scan rest increasing adding awaited seen zeros db tracks timed
      by_cases here : (∀ mac ∈ zeros, mac ∈ scan.macs) ∧ TriplesSettled scan.triples (seen.enter scan)
      · obtain ⟨next, taken, nextTimed⟩ := takes here
        have nextTracks := scan_tracks seen scan db next tracks taken
        obtain ⟨completes, othersAbort⟩ := ih (List.pairwise_cons.mp increasing).2 scan.adding [] (seen.scan scan) _ next
          nextTracks nextTimed
        rw [Fallible.run_ok_cons scanStep scan rest db next taken]
        exact ⟨fun settled => completes settled.2.2,
          fun disturbed => othersAbort fun settled => disturbed ⟨here.1, here.2, settled⟩⟩
      · refine ⟨fun settled => absurd ⟨settled.1, settled.2.1⟩ here, fun _ => ?_⟩
        exact Fallible.run_error_cons scanStep scan rest db .assertion (aborts here)

theorem database_completes_iff (scans : List Scan) (increasing : Increasing scans) :
    runScans scans ≠ .error .assertion ↔ ScansSettled scans nothingSeen [] := by
  have timed : Timed (fun _ => ⟨[], 0⟩) [] (ReadLater scans) nothingSeen [] Db.empty := by
    constructor <;> simp [Db.empty]
  obtain ⟨completes, aborts⟩ := scans_settled scans increasing _ [] nothingSeen [] Db.empty empty_tracks timed
  constructor
  · intro holds
    by_contra disturbed
    exact holds (aborts disturbed)
  · intro settled failed
    obtain ⟨last, run⟩ := completes settled
    rw [runScans, run] at failed
    contradiction

theorem database_completes_iff_leaving :
    runScans [⟨[("aa".toList, "10".toList, [])], fun _ => ⟨[], 5⟩, fun _ => ⟨[], 5⟩⟩, ⟨[], fun _ => ⟨[], 6⟩, fun _ => ⟨[], 6⟩⟩]
        ≠ .error .assertion ↔
      ScansSettled [⟨[("aa".toList, "10".toList, [])], fun _ => ⟨[], 5⟩, fun _ => ⟨[], 5⟩⟩,
        ⟨[], fun _ => ⟨[], 6⟩, fun _ => ⟨[], 6⟩⟩] nothingSeen [] := by
  refine database_completes_iff _ (List.pairwise_pair.mpr ?_)
  rintro t u (⟨_, rfl⟩ | ⟨_, rfl⟩) (⟨_, rfl⟩ | ⟨_, rfl⟩) <;> exact (by decide : (5 : UInt32) < 6)

theorem changed_address_aborts :
    Increasing [⟨[("aa".toList, "10".toList, [])], fun _ => ⟨[], 5⟩, fun _ => ⟨[], 5⟩⟩,
        ⟨[("aa".toList, "11".toList, [])], fun _ => ⟨[], 6⟩, fun _ => ⟨[], 6⟩⟩] ∧
      runScans [⟨[("aa".toList, "10".toList, [])], fun _ => ⟨[], 5⟩, fun _ => ⟨[], 5⟩⟩,
        ⟨[("aa".toList, "11".toList, [])], fun _ => ⟨[], 6⟩, fun _ => ⟨[], 6⟩⟩] = .error .assertion := by
  refine ⟨List.pairwise_pair.mpr ?_, rfl⟩
  rintro t u (⟨_, rfl⟩ | ⟨_, rfl⟩) (⟨_, rfl⟩ | ⟨_, rfl⟩) <;> exact (by decide : (5 : UInt32) < 6)

end Libx.NetScan

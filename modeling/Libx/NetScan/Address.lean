import Libx.NetScan.Report

set_option autoImplicit false

namespace Libx.NetScan

def Scan.firstAddress (scan : Scan) (mac : Text) : Option Text :=
  (scan.triples.find? fun macip => macip.1 = mac).map fun macip => macip.2.1

def arrive (addresses : Text → Option Text) (scan : Scan) (mac : Text) : Option Text :=
  (scan.firstAddress mac).map fun first => (addresses mac).getD first

def arrivals (scans : List Scan) : Text → Option Text := scans.foldl arrive fun _ => none

def settle (addresses : Text → Option Text) (macip : MacIp) : Text → Option Text :=
  Function.update addresses macip.1 (some ((addresses macip.1).getD macip.2.1))

def depart (addresses : Text → Option Text) (scan : Scan) (mac : Text) : Option Text :=
  if mac ∈ scan.macs then addresses mac else none

structure Settled (addresses : Text → Option Text) (seen : Seen) (db : Db) : Prop where
  stored : ∀ elem ∈ db.elems, elem.isOpen = true → addresses elem.mac = some elem.ip
  online : ∀ mac address, addresses mac = some address → mac ∈ seen.online

theorem settle_fold (triples : List MacIp) (addresses : Text → Option Text) (mac : Text) :
    triples.foldl settle addresses mac =
      (addresses mac).or ((triples.find? fun macip => macip.1 = mac).map fun macip => macip.2.1) := by
  induction triples generalizing addresses with
  | nil => simp
  | cons macip rest ih =>
      rw [List.foldl_cons, ih]
      by_cases same : macip.1 = mac
      · cases known : addresses mac with
        | none => simp [settle, same, known]
        | some address => simp [settle, same, known]
      · simp [settle, same, Function.update_of_ne (Ne.symm same)]

theorem first_address_none (scan : Scan) (mac : Text) : scan.firstAddress mac = none ↔ mac ∉ scan.macs := by
  simp only [Scan.firstAddress, Scan.macs, Option.map_eq_none_iff, List.find?_eq_none, decide_eq_true_eq, List.mem_map]
  exact ⟨fun others ⟨macip, member, own⟩ => others macip member own, fun unlisted macip member own => unlisted ⟨macip, member, own⟩⟩

theorem arrive_eq (addresses : Text → Option Text) (scan : Scan) :
    arrive addresses scan = scan.triples.foldl settle (depart addresses scan) := by
  funext mac
  rw [settle_fold, arrive, depart]
  change _ = Option.or _ (scan.firstAddress mac)
  cases found : scan.firstAddress mac with
  | none =>
      rw [if_neg ((first_address_none scan mac).mp found)]
      rfl
  | some first =>
      have listed : mac ∈ scan.macs := by
        by_contra unlisted
        rw [(first_address_none scan mac).mpr unlisted] at found
        contradiction
      rw [if_pos listed]
      cases addresses mac <;> rfl

section Settling

variable (addresses : Text → Option Text) (seen : Seen) (db : Db)
variable (settled : Settled addresses seen db) (tracks : Tracks seen db)
include settled

theorem offline_unsettled (mac : Text) (offline : mac ∉ seen.online) : addresses mac = none := by
  cases known : addresses mac with
  | none => rfl
  | some address => exact absurd (settled.online mac address known) offline

theorem settle_online (macip : MacIp) (mac address : Text) (known : settle addresses macip mac = some address) :
    mac ∈ (seen.add macip).online := by
  by_cases same : mac = macip.1
  · rw [same]
    exact List.mem_cons_self
  · rw [settle, Function.update_of_ne same] at known
    exact List.mem_cons_of_mem _ (settled.online mac address known)

-- The branch of a device that is open and stays: its address is not written.
theorem stays_settled (macip : MacIp) (idx : Nat) (elem : Elem) (here : db.elems[idx]? = some elem)
    (own : elem.mac = macip.1) (isOpen : elem.isOpen = true) :
    Settled (settle addresses macip) (seen.add macip) db := by
  have known := settled.stored elem (List.mem_of_getElem? here) isOpen
  have same : settle addresses macip = addresses := by
    rw [settle, ← own, known]
    exact Function.update_eq_self_iff.mpr known.symm
  constructor
  · rw [same]
    exact settled.stored
  · exact settle_online addresses seen db settled macip

include tracks

theorem created_settled (now : Instant) (macip : MacIp) (new : db.macKeys macip.1 = none) :
    Settled (settle addresses macip) (seen.add macip) (db.created now macip) := by
  have unknown := offline_unsettled addresses seen db settled macip.1 (new_offline seen db tracks macip.1 new)
  constructor
  · intro elem member isOpen
    cases created_mem now macip db elem member with
    | inl old =>
        have other := new_unlisted seen db tracks macip.1 new elem old
        rw [settle, Function.update_of_ne other]
        exact settled.stored elem old isOpen
    | inr fresh => simp [fresh, settle, Elem.new, unknown]
  · exact settle_online addresses seen db settled macip

theorem reopened_settled (now : Instant) (macip : MacIp) (idx : Nat) (elem : Elem) (here : db.elems[idx]? = some elem)
    (own : elem.mac = macip.1) (closed : ¬ elem.isOpen = true) :
    Settled (settle addresses macip) (seen.add macip) (db.reopened idx elem now macip.2.1) := by
  have offline : macip.1 ∉ seen.online :=
    fun online => closed ((tracks.opened elem (List.mem_of_getElem? here)).mpr (own ▸ online))
  have unknown := offline_unsettled addresses seen db settled macip.1 offline
  constructor
  · intro other member isOpen
    cases List.mem_or_eq_of_mem_set member with
    | inl old =>
        have online := (tracks.opened other old).mp isOpen
        have different : other.mac ≠ macip.1 := fun same => offline (same ▸ online)
        rw [settle, Function.update_of_ne different]
        exact settled.stored other old isOpen
    | inr reopened => simp [reopened, settle, Elem.opened, own, unknown]
  · exact settle_online addresses seen db settled macip

theorem add_triple_settles (now : Instant) (macip : MacIp) (changed : Bool) (after : Db)
    (run : db.addTriple now macip = .ok (changed, after)) : Settled (settle addresses macip) (seen.add macip) after := by
  rcases add_triple_cases seen db tracks now macip with ⟨new, creates⟩ | ⟨idx, elem, key, here, own, does⟩
  · rw [creates] at run
    obtain ⟨_, rfl⟩ := Prod.mk.inj (Except.ok.inj run)
    exact created_settled addresses seen db settled tracks now macip new
  · rw [does] at run
    split_ifs at run with isOpen last early
    · obtain ⟨_, rfl⟩ := Prod.mk.inj (Except.ok.inj run)
      exact stays_settled addresses seen db settled macip idx elem here own isOpen
    · obtain ⟨_, rfl⟩ := Prod.mk.inj (Except.ok.inj run)
      exact reopened_settled addresses seen db settled tracks now macip idx elem here own isOpen

end Settling

theorem add_triples_settles (adding : Nat → Instant) (triples : List MacIp) (j : Nat) (addresses : Text → Option Text)
    (seen : Seen) (db : Db) (changed : Bool) (after : Db) (tracks : Tracks seen db) (settled : Settled addresses seen db)
    (run : db.addTriples adding j triples = .ok (changed, after)) :
    Settled (triples.foldl settle addresses) (triples.foldl Seen.add seen) after := by
  induction triples generalizing j addresses seen db changed with
  | nil =>
      obtain ⟨_, rfl⟩ := Prod.mk.inj (Except.ok.inj run)
      exact settled
  | cons macip rest ih =>
      obtain ⟨here, middle, later, first, others, _⟩ := add_triples_cons adding j macip rest db after changed run
      have tracked := add_triple_tracks seen db tracks (adding j) macip here middle first
      have placed := add_triple_settles addresses seen db settled tracks (adding j) macip here middle first
      exact ih (j + 1) (settle addresses macip) (seen.add macip) middle later tracked placed others

theorem enter_settled (addresses : Text → Option Text) (seen : Seen) (db : Db) (scan : Scan)
    (settled : Settled addresses seen db) :
    Settled (depart addresses scan) (seen.enter scan) { db with elems := closedFrom scan.macs scan.closing 0 db.elems } := by
  constructor
  · intro after member isOpen
    obtain ⟨elem, old, k, rfl⟩ := closed_from_mem scan.macs scan.closing 0 db.elems after member
    obtain ⟨wasOpen, listed⟩ := (after_pass_open scan.macs (scan.closing k) elem).mp isOpen
    have stays : elem.afterPass scan.macs (scan.closing k) = elem := by
      simp [Elem.afterPass, Elem.away, listed]
    rw [stays, depart, if_pos listed]
    exact settled.stored elem old wasOpen
  · intro mac address known
    by_cases listed : mac ∈ scan.macs
    · rw [depart, if_pos listed] at known
      exact List.mem_filter.mpr ⟨settled.online mac address known, decide_eq_true listed⟩
    · rw [depart, if_neg listed] at known
      contradiction

theorem scan_settles (addresses : Text → Option Text) (seen : Seen) (scan : Scan) (db after : Db) (tracks : Tracks seen db)
    (settled : Settled addresses seen db) (run : scanStep scan db = .ok after) :
    Settled (arrive addresses scan) (seen.scan scan) after := by
  obtain ⟨⟨changed, made⟩, completed, rfl⟩ := (Fallible.map_ok_iff _ _ _).mp run
  obtain ⟨_, added, adds, _⟩ := add_mac_ip_ok scan db made changed completed
  rw [arrive_eq]
  exact add_triples_settles scan.adding scan.triples 0 _ _ _ added made (enter_tracks seen db scan tracks)
    (enter_settled addresses seen db scan settled) adds

theorem run_settles (scans : List Scan) (db : Db) (run : runScans scans = .ok db) :
    Settled (arrivals scans) (scans.foldl Seen.scan nothingSeen) db := by
  have start : Tracks nothingSeen Db.empty ∧ Settled (fun _ => none) nothingSeen Db.empty := by
    refine ⟨empty_tracks, ?_, ?_⟩ <;> simp [Db.empty]
  have reached := Fallible.run_along scanStep
    (fun past db => Tracks (past.foldl Seen.scan nothingSeen) db ∧
      Settled (arrivals past) (past.foldl Seen.scan nothingSeen) db)
    (fun past scan before after holds taken => by
      rw [arrivals, List.foldl_concat, List.foldl_concat]
      exact ⟨scan_tracks _ scan before after holds.1 taken, scan_settles _ _ scan before after holds.1 holds.2 taken⟩)
    scans [] Db.empty db start run
  exact reached.2

theorem address_current_iff (scans : List Scan) (last : Scan) (db : Db) (completed : runScans (scans ++ [last]) = .ok db) :
    (∀ macip ∈ last.triples, ∃ elem ∈ db.elems, elem.isOpen = true ∧ elem.mac = macip.1 ∧ elem.ip = macip.2.1) ↔
      ∀ macip ∈ last.triples, arrivals (scans ++ [last]) macip.1 = some macip.2.1 := by
  have tracks := run_tracks (scans ++ [last]) db completed
  have settled := run_settles (scans ++ [last]) db completed
  apply forall₂_congr
  intro macip member
  constructor
  · intro shown
    obtain ⟨elem, old, isOpen, own, address⟩ := shown
    rw [← own, ← address]
    exact settled.stored elem old isOpen
  · intro arrived
    have online := settled.online macip.1 macip.2.1 arrived
    obtain ⟨idx, key⟩ := tracks.present macip.1 online
    obtain ⟨elem, here, own⟩ := key_elem _ db tracks macip.1 idx key
    have old := List.mem_of_getElem? here
    have isOpen := (tracks.opened elem old).mpr (own ▸ online)
    have stored := settled.stored elem old isOpen
    rw [own, arrived] at stored
    exact ⟨elem, old, isOpen, own, (Option.some.inj stored).symm⟩

def Scan.atClock (secs : UInt32) (triples : List MacIp) : Scan := ⟨triples, fun _ => ⟨[], secs⟩, fun _ => ⟨[], secs⟩⟩

theorem address_current_iff_returning : ∃ db,
    runScans [.atClock 5 [("aa".toList, "10".toList, [])], .atClock 6 [], .atClock 7 [("aa".toList, "11".toList, [])]] = .ok db ∧
      ∃ elem ∈ db.elems, elem.isOpen = true ∧ elem.mac = "aa".toList ∧ elem.ip = "11".toList := by
  obtain ⟨db, run⟩ : ∃ db, runScans ([.atClock 5 [("aa".toList, "10".toList, [])], .atClock 6 []] ++
      [.atClock 7 [("aa".toList, "11".toList, [])]]) = .ok db := ⟨_, rfl⟩
  have current := (address_current_iff [.atClock 5 [("aa".toList, "10".toList, [])], .atClock 6 []]
    (.atClock 7 [("aa".toList, "11".toList, [])]) db run).mpr (by
      intro macip member
      obtain rfl := List.mem_singleton.mp member
      rfl)
  exact ⟨db, run, current ("aa".toList, "11".toList, []) (List.mem_singleton.mpr rfl)⟩

theorem earlier_address_ignored : ∃ db,
    runScans [.atClock 5 [("aa".toList, "10".toList, [])], .atClock 6 [], .atClock 7 [("aa".toList, "11".toList, [])],
        .atClock 8 [("aa".toList, "10".toList, [])]] = .ok db ∧
      ¬ ∃ elem ∈ db.elems, elem.isOpen = true ∧ elem.mac = "aa".toList ∧ elem.ip = "10".toList := by
  refine ⟨_, rfl, ?_⟩
  intro shown
  obtain ⟨elem, member, _, _, address⟩ := shown
  obtain rfl := List.mem_singleton.mp member
  exact absurd address (by decide)

end Libx.NetScan

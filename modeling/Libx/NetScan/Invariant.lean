import Libx.NetScan.Db
import Mathlib.Data.List.Nodup

set_option autoImplicit false

namespace Libx.NetScan

-- What the scans so far say by themselves: the addresses seen, latest first,
-- and the devices that are online.
structure Seen where
  addresses : List (Text × Text)
  online : List Text

def lastHolder (addresses : List (Text × Text)) (ip : Text) : Option Text :=
  (addresses.find? fun seen => seen.2 = ip).map Prod.fst

def Seen.add (seen : Seen) (macip : MacIp) : Seen := ⟨(macip.1, macip.2.1) :: seen.addresses, macip.1 :: seen.online⟩
def Seen.enter (seen : Seen) (scan : Scan) : Seen := { seen with online := seen.online.filter (· ∈ scan.macs) }
def Seen.scan (seen : Seen) (scan : Scan) : Seen := scan.triples.foldl Seen.add (seen.enter scan)

def nothingSeen : Seen := ⟨[], []⟩

structure Tracks (seen : Seen) (db : Db) : Prop where
  keyed : ∀ mac idx, db.macKeys mac = some idx ↔ ∃ elem, db.elems[idx]? = some elem ∧ elem.mac = mac
  known : ∀ mac, (∃ idx, db.macKeys mac = some idx) ↔ ∃ ip, (mac, ip) ∈ seen.addresses
  held : ∀ ip, db.ipKeys ip = (lastHolder seen.addresses ip).bind db.macKeys
  opened : ∀ elem ∈ db.elems, elem.isOpen = true ↔ elem.mac ∈ seen.online
  present : ∀ mac ∈ seen.online, ∃ idx, db.macKeys mac = some idx

theorem last_holder_cons (mac ip other : Text) (addresses : List (Text × Text)) :
    lastHolder ((mac, ip) :: addresses) other = if ip = other then some mac else lastHolder addresses other := by
  by_cases same : ip = other <;> simp [lastHolder, same]

theorem last_holder_known (addresses : List (Text × Text)) (ip mac : Text) (holder : lastHolder addresses ip = some mac) :
    (mac, ip) ∈ addresses := by
  obtain ⟨⟨holderMac, holderIp⟩, found, rfl⟩ := Option.map_eq_some_iff.mp holder
  have own : holderIp = ip := by simpa using List.find?_some found
  exact own ▸ List.mem_of_find?_eq_some found

def Db.reopened (db : Db) (idx : Nat) (elem : Elem) (now : Instant) (ip : Text) : Db :=
  { db.setIpKey ip idx with elems := db.elems.set idx (elem.opened now ip) }

def Db.created (db : Db) (now : Instant) (macip : MacIp) : Db :=
  Db.setIpKey
    { db with
      elems := db.elems ++ [Elem.new now macip.1 macip.2.1 macip.2.2]
      macKeys := Function.update db.macKeys macip.1 (some db.elems.length) }
    macip.2.1 db.elems.length

theorem reopened_mac_keys (db : Db) (idx : Nat) (elem : Elem) (now : Instant) (ip : Text) :
    (db.reopened idx elem now ip).macKeys = db.macKeys := rfl

theorem created_mac_keys (db : Db) (now : Instant) (macip : MacIp) :
    (db.created now macip).macKeys = Function.update db.macKeys macip.1 (some db.elems.length) := rfl

theorem add_new (now : Instant) (macip : MacIp) (db : Db) (new : db.macKeys macip.1 = none) :
    db.addTriple now macip = .ok (true, db.created now macip) := by
  simp only [Db.addTriple, new]
  rfl

theorem add_known (now : Instant) (mac ip what : Text) (db : Db) (idx : Nat) (elem : Elem) (key : db.macKeys mac = some idx)
    (here : db.elems[idx]? = some elem) (own : elem.mac = mac) :
    db.addTriple now (mac, ip, what) =
      if elem.isOpen = true then (if db.ipKeys ip = some idx then .ok (false, db) else .error .assertion)
      else if elem.timeInInt < elem.timeOutInt then .ok (true, db.reopened idx elem now ip) else .error .assertion := by
  have bound : idx < db.elems.length := (List.getElem?_eq_some_iff.mp here).1
  have opens : (db.setIpKey ip idx).setOpenAt idx now ip =
      if elem.isOpen = false ∧ elem.timeInInt < elem.timeOutInt then .ok (db.reopened idx elem now ip) else .error .assertion := by
    by_cases ready : elem.isOpen = false ∧ elem.timeInInt < elem.timeOutInt
    · simp [Db.setOpenAt, Db.elemAt, Db.setIpKey, here, Elem.setOpen, ready, Db.reopened]
    · simp [Db.setOpenAt, Db.elemAt, Db.setIpKey, here, Elem.setOpen, ready]
  have again : (db.reopened idx elem now ip).elemAt idx = .ok (elem.opened now ip) := by
    simp [Db.elemAt, Db.reopened, bound]
  cases known : db.ipKeys ip with
  | none =>
      simp only [Db.addTriple, key, known, opens]
      by_cases isOpen : elem.isOpen = true
      · simp [isOpen]
      · by_cases early : elem.timeInInt < elem.timeOutInt
        · simp [isOpen, early, again, own, Elem.opened]
        · simp [isOpen, early]
  | some idxIp =>
      simp only [Db.addTriple, key, known, opens]
      by_cases same : idx = idxIp
      · subst same
        simp only [if_true, Db.elemAt, here, Fallible.ok_map, Fallible.ok_bind]
        by_cases isOpen : elem.isOpen = true
        · simp [isOpen]
        · by_cases early : elem.timeInInt < elem.timeOutInt <;> simp [isOpen, early]
      · have other : ¬ (some idxIp = some idx) := fun equal => same (Option.some.inj equal).symm
        simp only [if_neg same, if_neg other, Fallible.ok_bind]
        by_cases isOpen : elem.isOpen = true
        · simp [isOpen]
        · by_cases early : elem.timeInInt < elem.timeOutInt <;> simp [isOpen, early]

theorem created_get (now : Instant) (macip : MacIp) (db : Db) (idx : Nat) (elem : Elem) :
    (db.created now macip).elems[idx]? = some elem ↔
      db.elems[idx]? = some elem ∨ idx = db.elems.length ∧ Elem.new now macip.1 macip.2.1 macip.2.2 = elem := by
  simp only [Db.created, Db.setIpKey, List.getElem?_append]
  split
  · rename_i before
    exact ⟨.inl, fun either => either.elim id fun last => by omega⟩
  · rename_i behind
    have nothing : db.elems[idx]? = none := List.getElem?_eq_none (by omega)
    rw [nothing, List.getElem?_singleton]
    by_cases last : idx = db.elems.length
    · simp [last]
    · rw [if_neg (by omega)]
      simp [last]

theorem created_mem (now : Instant) (macip : MacIp) (db : Db) (elem : Elem) (member : elem ∈ (db.created now macip).elems) :
    elem ∈ db.elems ∨ elem = Elem.new now macip.1 macip.2.1 macip.2.2 := by
  simpa [Db.created, Db.setIpKey] using member

section Tracking

variable (seen : Seen) (db : Db) (tracks : Tracks seen db)
include tracks

theorem key_elem (mac : Text) (idx : Nat) (key : db.macKeys mac = some idx) :
    ∃ elem, db.elems[idx]? = some elem ∧ elem.mac = mac := (tracks.keyed mac idx).mp key

theorem ip_key_iff (mac ip : Text) (idx : Nat) (key : db.macKeys mac = some idx) :
    db.ipKeys ip = some idx ↔ lastHolder seen.addresses ip = some mac := by
  rw [tracks.held]
  constructor
  · intro leads
    obtain ⟨holder, last, holderKey⟩ := Option.bind_eq_some_iff.mp leads
    obtain ⟨elem, here, own⟩ := key_elem seen db tracks mac idx key
    obtain ⟨other, otherHere, otherOwn⟩ := key_elem seen db tracks holder idx holderKey
    obtain rfl : elem = other := Option.some.inj (here.symm.trans otherHere)
    rw [last, ← otherOwn, own]
  · intro last
    rw [last]
    exact key

theorem new_unlisted (mac : Text) (new : db.macKeys mac = none) : ∀ elem ∈ db.elems, elem.mac ≠ mac := by
  intro elem member own
  obtain ⟨idx, here⟩ := List.mem_iff_getElem?.mp member
  rw [(tracks.keyed mac idx).mpr ⟨elem, here, own⟩] at new
  contradiction

theorem new_offline (mac : Text) (new : db.macKeys mac = none) : mac ∉ seen.online := by
  intro member
  obtain ⟨idx, key⟩ := tracks.present mac member
  rw [new] at key
  contradiction

theorem new_unseen (mac ip : Text) (new : db.macKeys mac = none) : (mac, ip) ∉ seen.addresses := by
  intro member
  obtain ⟨idx, key⟩ := (tracks.known mac).mpr ⟨ip, member⟩
  rw [new] at key
  contradiction

theorem created_keyed (now : Instant) (macip : MacIp) (new : db.macKeys macip.1 = none) (mac : Text) (idx : Nat) :
    (db.created now macip).macKeys mac = some idx ↔
      ∃ elem, (db.created now macip).elems[idx]? = some elem ∧ elem.mac = mac := by
  simp only [created_get, created_mac_keys]
  by_cases same : mac = macip.1
  · rw [same, Function.update_self]
    constructor
    · intro last
      exact ⟨_, .inr ⟨(Option.some.inj last).symm, rfl⟩, rfl⟩
    · rintro ⟨elem, here | ⟨last, _⟩, own⟩
      · exact absurd own (new_unlisted seen db tracks macip.1 new elem (List.mem_of_getElem? here))
      · exact congrArg some last.symm
  · rw [Function.update_of_ne same, tracks.keyed]
    constructor
    · rintro ⟨elem, here, own⟩
      exact ⟨elem, .inl here, own⟩
    · rintro ⟨elem, here | ⟨_, rfl⟩, own⟩
      · exact ⟨elem, here, own⟩
      · exact absurd own.symm same

theorem created_tracks (now : Instant) (macip : MacIp) (new : db.macKeys macip.1 = none) :
    Tracks (seen.add macip) (db.created now macip) := by
  constructor
  · exact created_keyed seen db tracks now macip new
  · intro other
    simp only [Db.created, Db.setIpKey, Seen.add, List.mem_cons, Prod.mk.injEq]
    by_cases same : other = macip.1
    · simp [same]
    · rw [Function.update_of_ne same, tracks.known]
      simp [same]
  · intro other
    simp only [Db.created, Db.setIpKey, Seen.add, last_holder_cons]
    by_cases same : macip.2.1 = other
    · simp [same]
    · rw [Function.update_of_ne (Ne.symm same), if_neg same, tracks.held]
      cases last : lastHolder seen.addresses other with
      | none => rfl
      | some holder =>
          have different : holder ≠ macip.1 := by
            rintro rfl
            exact new_unseen seen db tracks _ other new (last_holder_known seen.addresses other _ last)
          simp [Function.update_of_ne different]
  · intro elem member
    rcases created_mem now macip db elem member with old | rfl
    · simp [Seen.add, new_unlisted seen db tracks macip.1 new elem old, tracks.opened elem old]
    · simp [Elem.new, Seen.add]
  · intro other member
    simp only [Db.created, Db.setIpKey]
    by_cases same : other = macip.1
    · simp [same]
    · rw [Function.update_of_ne same]
      exact tracks.present other (by simpa [Seen.add, same] using member)

theorem known_still (mac ip what : Text) (idx : Nat) (key : db.macKeys mac = some idx) (other : Text) :
    (∃ i, db.macKeys other = some i) ↔ ∃ otherIp, (other, otherIp) ∈ (seen.add (mac, ip, what)).addresses := by
  rw [tracks.known]
  simp only [Seen.add, List.mem_cons, Prod.mk.injEq]
  constructor
  · rintro ⟨otherIp, member⟩
    exact ⟨otherIp, .inr member⟩
  · rintro ⟨otherIp, ⟨rfl, rfl⟩ | member⟩
    · exact (tracks.known other).mp ⟨idx, key⟩
    · exact ⟨otherIp, member⟩

theorem present_still (mac ip what : Text) (idx : Nat) (key : db.macKeys mac = some idx) (other : Text)
    (member : other ∈ (seen.add (mac, ip, what)).online) : ∃ i, db.macKeys other = some i := by
  rcases List.mem_cons.mp member with rfl | old
  · exact ⟨idx, key⟩
  · exact tracks.present other old

theorem key_alone (mac : Text) (idx i : Nat) (other : Elem) (key : db.macKeys mac = some idx) (here : db.elems[i]? = some other)
    (own : other.mac = mac) : idx = i := by
  have otherKey := (tracks.keyed mac i).mpr ⟨other, here, own⟩
  rw [key] at otherKey
  exact Option.some.inj otherKey

theorem reopened_tracks (now : Instant) (mac ip what : Text) (idx : Nat) (elem : Elem) (key : db.macKeys mac = some idx)
    (here : db.elems[idx]? = some elem) (own : elem.mac = mac) :
    Tracks (seen.add (mac, ip, what)) (db.reopened idx elem now ip) := by
  have bound : idx < db.elems.length := (List.getElem?_eq_some_iff.mp here).1
  constructor
  · intro other i
    rw [reopened_mac_keys, tracks.keyed]
    simp only [Db.reopened, List.getElem?_set]
    by_cases same : idx = i
    · rw [← same, here, if_pos rfl, if_pos bound]
      simp [Elem.opened]
    · rw [if_neg same]
  · intro other
    rw [reopened_mac_keys]
    exact known_still seen db tracks mac ip what idx key other
  · intro other
    simp only [Db.reopened, Db.setIpKey, Seen.add, last_holder_cons]
    by_cases same : ip = other
    · simp [same, key]
    · rw [Function.update_of_ne (Ne.symm same), if_neg same, tracks.held]
  · intro other member
    obtain ⟨i, at_⟩ := List.mem_iff_getElem?.mp member
    simp only [Db.reopened, List.getElem?_set] at at_
    by_cases same : idx = i
    · rw [if_pos same, if_pos bound] at at_
      obtain rfl := Option.some.inj at_
      simp [Elem.opened, Seen.add, own]
    · rw [if_neg same] at at_
      have different : other.mac ≠ mac := fun equal => same (key_alone seen db tracks mac idx i other key at_ equal)
      simp [Seen.add, different, tracks.opened other (List.mem_of_getElem? at_)]
  · intro other member
    rw [reopened_mac_keys]
    exact present_still seen db tracks mac ip what idx key other member

theorem stays_tracks (mac ip what : Text) (idx : Nat) (elem : Elem) (key : db.macKeys mac = some idx)
    (here : db.elems[idx]? = some elem) (own : elem.mac = mac) (isOpen : elem.isOpen = true)
    (last : lastHolder seen.addresses ip = some mac) : Tracks (seen.add (mac, ip, what)) db := by
  have online : mac ∈ seen.online := own ▸ (tracks.opened elem (List.mem_of_getElem? here)).mp isOpen
  constructor
  · exact tracks.keyed
  · exact known_still seen db tracks mac ip what idx key
  · intro other
    rw [tracks.held, Seen.add, last_holder_cons]
    by_cases same : ip = other
    · rw [if_pos same, ← same, last]
    · rw [if_neg same]
  · intro other member
    rw [tracks.opened other member, Seen.add, List.mem_cons]
    exact ⟨.inr, fun either => either.elim (fun same => same ▸ online) id⟩
  · exact present_still seen db tracks mac ip what idx key

theorem add_triple_cases (now : Instant) (macip : MacIp) :
    (db.macKeys macip.1 = none ∧ db.addTriple now macip = .ok (true, db.created now macip)) ∨
      ∃ idx elem, db.macKeys macip.1 = some idx ∧ db.elems[idx]? = some elem ∧ elem.mac = macip.1 ∧
        db.addTriple now macip =
          if elem.isOpen = true then
            (if lastHolder seen.addresses macip.2.1 = some macip.1 then .ok (false, db) else .error .assertion)
          else if elem.timeInInt < elem.timeOutInt then .ok (true, db.reopened idx elem now macip.2.1) else .error .assertion := by
  obtain ⟨mac, ip, what⟩ := macip
  cases key : db.macKeys mac with
  | none => exact .inl ⟨rfl, add_new now (mac, ip, what) db key⟩
  | some idx =>
      obtain ⟨elem, here, own⟩ := key_elem seen db tracks mac idx key
      refine .inr ⟨idx, elem, rfl, here, own, ?_⟩
      rw [add_known now mac ip what db idx elem key here own]
      simp only [ip_key_iff seen db tracks mac ip idx key]

theorem add_triple_tracks (now : Instant) (macip : MacIp) (changed : Bool) (after : Db)
    (run : db.addTriple now macip = .ok (changed, after)) : Tracks (seen.add macip) after := by
  rcases add_triple_cases seen db tracks now macip with ⟨new, creates⟩ | ⟨idx, elem, key, here, own, does⟩
  · rw [creates] at run
    obtain ⟨_, rfl⟩ := Prod.mk.inj (Except.ok.inj run)
    exact created_tracks seen db tracks now macip new
  · rw [does] at run
    split_ifs at run with isOpen last early
    · obtain ⟨_, rfl⟩ := Prod.mk.inj (Except.ok.inj run)
      exact stays_tracks seen db tracks macip.1 macip.2.1 macip.2.2 idx elem key here own isOpen last
    · obtain ⟨_, rfl⟩ := Prod.mk.inj (Except.ok.inj run)
      exact reopened_tracks seen db tracks now macip.1 macip.2.1 macip.2.2 idx elem key here own

end Tracking

def Elem.afterPass (macs : List Text) (now : Instant) (elem : Elem) : Elem := if elem.away macs then elem.closed now else elem

def closedFrom (macs : List Text) (closing : Nat → Instant) : Nat → List Elem → List Elem
  | _, [] => []
  | i, elem :: rest => elem.afterPass macs (closing i) :: closedFrom macs closing (i + 1) rest

def Closable (macs : List Text) (elems : List Elem) : Prop :=
  ∀ elem ∈ elems, elem.away macs = true → elem.timeOutInt < elem.timeInInt

theorem close_absent_ok (macs : List Text) (closing : Nat → Instant) (i : Nat) (elems : List Elem)
    (closable : Closable macs elems) :
    Db.closeAbsent macs closing i elems = .ok (elems.any (Elem.away macs), closedFrom macs closing i elems) := by
  induction elems generalizing i with
  | nil => rfl
  | cons elem rest ih =>
      have later := ih (i + 1) fun other member => closable other (by simp [member])
      rw [Db.closeAbsent, later]
      by_cases away : elem.away macs = true
      · have isOpen : elem.isOpen = true := (of_decide_eq_true away).1
        have early := closable elem (by simp) away
        simp [away, Elem.setClose, isOpen, early, closedFrom, Elem.afterPass]
      · simp [away, closedFrom, Elem.afterPass]

theorem close_absent_error (macs : List Text) (closing : Nat → Instant) (i : Nat) (elems : List Elem)
    (unclosable : ¬ Closable macs elems) : Db.closeAbsent macs closing i elems = .error .assertion := by
  induction elems generalizing i with
  | nil => exact absurd (by simp [Closable]) unclosable
  | cons elem rest ih =>
      rw [Db.closeAbsent]
      by_cases here : elem.away macs = true → elem.timeOutInt < elem.timeInInt
      · have later := ih (i + 1) fun closable => unclosable (List.forall_mem_cons.mpr ⟨here, closable⟩)
        rw [later]
        by_cases away : elem.away macs = true
        · have isOpen : elem.isOpen = true := (of_decide_eq_true away).1
          have early := here away
          simp [away, Elem.setClose, isOpen, early]
        · simp [away]
      · obtain ⟨away, late⟩ := Classical.not_imp.mp here
        simp [away, Elem.setClose, late]

theorem after_pass_mac (macs : List Text) (now : Instant) (elem : Elem) : (elem.afterPass macs now).mac = elem.mac := by
  rw [Elem.afterPass]
  split <;> rfl

theorem after_pass_open (macs : List Text) (now : Instant) (elem : Elem) :
    (elem.afterPass macs now).isOpen = true ↔ elem.isOpen = true ∧ elem.mac ∈ macs := by
  by_cases isOpen : elem.isOpen = true
  · by_cases here : elem.mac ∈ macs <;> simp [Elem.afterPass, Elem.away, isOpen, here, Elem.closed]
  · simp [Elem.afterPass, Elem.away, isOpen]

theorem closed_from_get (macs : List Text) (closing : Nat → Instant) (i idx : Nat) (elems : List Elem) :
    (closedFrom macs closing i elems)[idx]? = elems[idx]?.map (Elem.afterPass macs (closing (i + idx))) := by
  induction elems generalizing i idx with
  | nil => simp [closedFrom]
  | cons elem rest ih =>
      cases idx with
      | zero => simp [closedFrom]
      | succ idx => simp [closedFrom, ih, Nat.add_assoc, Nat.add_comm 1]

theorem closed_from_mem (macs : List Text) (closing : Nat → Instant) (i : Nat) (elems : List Elem) (after : Elem)
    (member : after ∈ closedFrom macs closing i elems) :
    ∃ elem ∈ elems, ∃ k, after = elem.afterPass macs (closing k) := by
  obtain ⟨idx, here⟩ := List.mem_iff_getElem?.mp member
  rw [closed_from_get] at here
  obtain ⟨elem, old, same⟩ := Option.map_eq_some_iff.mp here
  exact ⟨elem, List.mem_of_getElem? old, i + idx, same.symm⟩

theorem enter_tracks (seen : Seen) (db : Db) (scan : Scan) (tracks : Tracks seen db) :
    Tracks (seen.enter scan) { db with elems := closedFrom scan.macs scan.closing 0 db.elems } := by
  constructor
  · intro mac idx
    simp only [tracks.keyed, closed_from_get]
    cases db.elems[idx]? <;> simp [after_pass_mac]
  · exact tracks.known
  · exact tracks.held
  · intro after member
    obtain ⟨elem, old, k, rfl⟩ := closed_from_mem scan.macs scan.closing 0 db.elems after member
    rw [after_pass_open, after_pass_mac, tracks.opened elem old]
    simp [Seen.enter]
  · intro mac member
    exact tracks.present mac (List.mem_of_mem_filter member)

theorem add_triples_cons (adding : Nat → Instant) (j : Nat) (macip : MacIp) (rest : List MacIp) (db after : Db) (changed : Bool)
    (run : db.addTriples adding j (macip :: rest) = .ok (changed, after)) :
    ∃ here middle later, db.addTriple (adding j) macip = .ok (here, middle) ∧
      middle.addTriples adding (j + 1) rest = .ok (later, after) ∧ changed = (here || later) := by
  rw [Db.addTriples] at run
  obtain ⟨⟨here, middle⟩, first, run⟩ := (Fallible.bind_ok_iff _ _ _).mp run
  obtain ⟨⟨later, last⟩, others, made⟩ := (Fallible.bind_ok_iff _ _ _).mp run
  obtain ⟨rfl, rfl⟩ := Prod.mk.inj (Except.ok.inj made)
  exact ⟨here, middle, later, first, others, rfl⟩

theorem add_triples_tracks (adding : Nat → Instant) (triples : List MacIp) (j : Nat) (seen : Seen) (db : Db) (changed : Bool)
    (after : Db) (tracks : Tracks seen db) (run : db.addTriples adding j triples = .ok (changed, after)) :
    Tracks (triples.foldl Seen.add seen) after := by
  induction triples generalizing j seen db changed with
  | nil =>
      obtain ⟨_, rfl⟩ := Prod.mk.inj (Except.ok.inj run)
      exact tracks
  | cons macip rest ih =>
      obtain ⟨here, middle, later, first, others, _⟩ := add_triples_cons adding j macip rest db after changed run
      have tracked := add_triple_tracks seen db tracks (adding j) macip here middle first
      exact ih (j + 1) (seen.add macip) middle later tracked others

theorem add_mac_ip_ok (scan : Scan) (db after : Db) (changed : Bool) (run : db.addMacIp scan = .ok (changed, after)) :
    Closable scan.macs db.elems ∧
      ∃ added, { db with elems := closedFrom scan.macs scan.closing 0 db.elems }.addTriples scan.adding 0 scan.triples =
          .ok (added, after) ∧
        changed = (db.elems.any (Elem.away scan.macs) || added) := by
  rw [Db.addMacIp] at run
  by_cases closable : Closable scan.macs db.elems
  · rw [close_absent_ok scan.macs scan.closing 0 db.elems closable, Fallible.ok_bind] at run
    obtain ⟨⟨added, last⟩, adds, made⟩ := (Fallible.bind_ok_iff _ _ _).mp run
    obtain ⟨rfl, rfl⟩ := Prod.mk.inj (Except.ok.inj made)
    exact ⟨closable, added, adds, rfl⟩
  · rw [close_absent_error scan.macs scan.closing 0 db.elems closable, Fallible.error_bind] at run
    contradiction

theorem scan_tracks (seen : Seen) (scan : Scan) (db after : Db) (tracks : Tracks seen db)
    (run : scanStep scan db = .ok after) : Tracks (seen.scan scan) after := by
  obtain ⟨⟨changed, made⟩, completed, rfl⟩ := (Fallible.map_ok_iff _ _ _).mp run
  obtain ⟨_, added, adds, _⟩ := add_mac_ip_ok scan db made changed completed
  exact add_triples_tracks scan.adding scan.triples 0 (seen.enter scan) _ added made (enter_tracks seen db scan tracks) adds

end Libx.NetScan

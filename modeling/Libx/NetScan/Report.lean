import Libx.NetScan.Invariant

set_option autoImplicit false

namespace Libx.NetScan

theorem empty_tracks : Tracks nothingSeen Db.empty := by
  constructor <;> simp [nothingSeen, Db.empty, lastHolder]

theorem run_tracks (scans : List Scan) (db : Db) (run : runScans scans = .ok db) :
    Tracks (scans.foldl Seen.scan nothingSeen) db :=
  Fallible.run_invariant scanStep Seen.scan Tracks (fun seen scan state next tracks taken => scan_tracks seen scan state next tracks taken)
    scans nothingSeen Db.empty db empty_tracks run

theorem added_online (triples : List MacIp) (seen : Seen) :
    (triples.foldl Seen.add seen).online = (triples.map Prod.fst).reverse ++ seen.online := by
  induction triples generalizing seen with
  | nil => rfl
  | cons macip rest ih => simp [ih, Seen.add]

theorem scan_online (seen : Seen) (scan : Scan) (mac : Text) : mac ∈ (seen.scan scan).online ↔ mac ∈ scan.macs := by
  rw [Seen.scan, added_online, List.mem_append, List.mem_reverse]
  simp only [Seen.enter, List.mem_filter, decide_eq_true_eq]
  exact ⟨fun either => either.elim id And.right, .inl⟩

section Reports

variable (seen : Seen) (db : Db) (tracks : Tracks seen db)
include tracks

theorem open_macs (mac : Text) : mac ∈ (db.elems.filter Elem.isOpen).map Elem.mac ↔ mac ∈ seen.online := by
  constructor
  · intro member
    obtain ⟨elem, inside, rfl⟩ := List.mem_map.mp member
    obtain ⟨old, isOpen⟩ := List.mem_filter.mp inside
    exact (tracks.opened elem old).mp isOpen
  · intro online
    obtain ⟨idx, key⟩ := tracks.present mac online
    obtain ⟨elem, here, own⟩ := key_elem seen db tracks mac idx key
    have old := List.mem_of_getElem? here
    exact List.mem_map.mpr ⟨elem, List.mem_filter.mpr ⟨old, (tracks.opened elem old).mpr (own ▸ online)⟩, own⟩

theorem mac_keys_exact (mac : Text) (idx : Nat) : db.macKeys mac = some idx ↔ (db.elems.map Elem.mac)[idx]? = some mac := by
  rw [tracks.keyed, List.getElem?_map]
  cases db.elems[idx]? <;> simp

theorem macs_distinct : (db.elems.map Elem.mac).Nodup := by
  refine List.nodup_iff_injective_get.mpr fun i j same => ?_
  have first := (mac_keys_exact seen db tracks ((db.elems.map Elem.mac).get i) i).mpr (List.getElem?_eq_getElem i.isLt)
  have second := (mac_keys_exact seen db tracks ((db.elems.map Elem.mac).get j) j).mpr (List.getElem?_eq_getElem j.isLt)
  rw [same, second] at first
  exact Fin.ext (Option.some.inj first).symm

theorem ip_keys_inside (ip : Text) (idx : Nat) (key : db.ipKeys ip = some idx) : idx < db.elems.length := by
  rw [tracks.held] at key
  obtain ⟨mac, _, holderKey⟩ := Option.bind_eq_some_iff.mp key
  obtain ⟨elem, here, _⟩ := key_elem seen db tracks mac idx holderKey
  exact (List.getElem?_eq_some_iff.mp here).1

theorem add_triple_false (now : Instant) (macip : MacIp) (after : Db) (run : db.addTriple now macip = .ok (false, after)) :
    after = db := by
  rcases add_triple_cases seen db tracks now macip with ⟨_, creates⟩ | ⟨idx, elem, _, _, _, does⟩
  · simp [creates] at run
  · rw [does] at run
    split_ifs at run
    · exact (Prod.mk.inj (Except.ok.inj run)).2.symm
    · simp at run

theorem add_triple_online (now : Instant) (macip : MacIp) (online : macip.1 ∈ seen.online) (changed : Bool) (after : Db)
    (run : db.addTriple now macip = .ok (changed, after)) : changed = false ∧ after = db := by
  rcases add_triple_cases seen db tracks now macip with ⟨new, _⟩ | ⟨idx, elem, _, here, own, does⟩
  · exact absurd online (new_offline seen db tracks macip.1 new)
  · have isOpen := (tracks.opened elem (List.mem_of_getElem? here)).mpr (own ▸ online)
    rw [does, if_pos isOpen] at run
    split_ifs at run
    obtain ⟨rfl, rfl⟩ := Prod.mk.inj (Except.ok.inj run)
    exact ⟨rfl, rfl⟩

end Reports

theorem add_triples_false (adding : Nat → Instant) (triples : List MacIp) (j : Nat) (seen : Seen) (db after : Db)
    (tracks : Tracks seen db) (run : db.addTriples adding j triples = .ok (false, after)) : after = db := by
  induction triples generalizing j seen db with
  | nil => exact (Prod.mk.inj (Except.ok.inj run)).2.symm
  | cons macip rest ih =>
      obtain ⟨here, middle, later, first, others, neither⟩ := add_triples_cons adding j macip rest db after false run
      obtain ⟨rfl, rfl⟩ := Bool.or_eq_false_iff.mp neither.symm
      have tracked := add_triple_tracks seen db tracks (adding j) macip false middle first
      have kept := add_triple_false seen db tracks (adding j) macip middle first
      exact (ih (j + 1) (seen.add macip) middle tracked others).trans kept

theorem add_triples_online (adding : Nat → Instant) (triples : List MacIp) (j : Nat) (seen : Seen) (db after : Db)
    (tracks : Tracks seen db) (online : ∀ macip ∈ triples, macip.1 ∈ seen.online) (changed : Bool)
    (run : db.addTriples adding j triples = .ok (changed, after)) : changed = false := by
  induction triples generalizing j seen db changed with
  | nil => exact (Prod.mk.inj (Except.ok.inj run)).1.symm
  | cons macip rest ih =>
      obtain ⟨here, middle, later, first, others, rfl⟩ := add_triples_cons adding j macip rest db after changed run
      have tracked := add_triple_tracks seen db tracks (adding j) macip here middle first
      obtain ⟨rfl, _⟩ := add_triple_online seen db tracks (adding j) macip (online macip (by simp)) here middle first
      have stillOnline : ∀ other ∈ rest, other.1 ∈ (seen.add macip).online :=
        fun other member => List.mem_cons_of_mem _ (online other (by simp [member]))
      rw [ih (j + 1) (seen.add macip) middle tracked stillOnline later others]
      rfl

theorem nothing_closed (macs : List Text) (closing : Nat → Instant) (i : Nat) (elems : List Elem)
    (none_ : elems.any (Elem.away macs) = false) : closedFrom macs closing i elems = elems := by
  induction elems generalizing i with
  | nil => rfl
  | cons elem rest ih =>
      obtain ⟨here, later⟩ := Bool.or_eq_false_iff.mp (by simpa using none_ : (elem.away macs || rest.any (Elem.away macs)) = false)
      rw [closedFrom, ih (i + 1) later, Elem.afterPass, here]
      rfl

theorem add_mac_ip_changed (seen : Seen) (db after : Db) (tracks : Tracks seen db) (scan : Scan) (changed : Bool)
    (run : db.addMacIp scan = .ok (changed, after)) : changed = false ↔ after = db := by
  obtain ⟨_, added, adds, rfl⟩ := add_mac_ip_ok scan db after changed run
  have entered := enter_tracks seen db scan tracks
  constructor
  · intro neither
    obtain ⟨closed, rfl⟩ := Bool.or_eq_false_iff.mp neither
    have kept := add_triples_false scan.adding scan.triples 0 (seen.enter scan) _ after entered adds
    rw [kept, nothing_closed scan.macs scan.closing 0 db.elems closed]
  · rintro rfl
    have final := add_triples_tracks scan.adding scan.triples 0 (seen.enter scan) _ added after entered adds
    have same (mac : Text) : mac ∈ seen.online ↔ mac ∈ scan.macs := by
      rw [← open_macs seen after tracks, open_macs _ after final]
      exact scan_online seen scan mac
    have closed : after.elems.any (Elem.away scan.macs) = false := by
      refine List.any_eq_false.mpr fun elem member away => ?_
      obtain ⟨isOpen, absent⟩ := of_decide_eq_true away
      exact absent ((same elem.mac).mp ((tracks.opened elem member).mp isOpen))
    have online : ∀ macip ∈ scan.triples, macip.1 ∈ (seen.enter scan).online := by
      intro macip member
      have inScan : macip.1 ∈ scan.macs := List.mem_map_of_mem member
      simpa [Seen.enter, inScan] using (same macip.1).mpr inScan
    rw [closed, add_triples_online scan.adding scan.triples 0 (seen.enter scan) _ after entered online added adds]
    rfl

theorem db_invariant (scans : List Scan) (db : Db) (run : runScans scans = .ok db) :
    (db.elems.map Elem.mac).Nodup ∧
      (∀ mac idx, db.macKeys mac = some idx ↔ (db.elems.map Elem.mac)[idx]? = some mac) ∧
      (∀ ip idx, db.ipKeys ip = some idx → idx < db.elems.length) ∧
      (∀ last ∈ scans.getLast?, ∀ mac, mac ∈ (db.elems.filter Elem.isOpen).map Elem.mac ↔ mac ∈ last.macs) ∧
      ∀ scan changed after, db.addMacIp scan = .ok (changed, after) → (changed = false ↔ after = db) := by
  have tracks := run_tracks scans db run
  refine ⟨macs_distinct _ db tracks, mac_keys_exact _ db tracks, ip_keys_inside _ db tracks, ?_, ?_⟩
  · intro last isLast mac
    obtain ⟨before, rfl⟩ : ∃ before, scans = before ++ [last] := List.getLast?_eq_some_iff.mp isLast
    rw [open_macs _ db tracks, List.foldl_append]
    exact scan_online _ last mac
  · intro scan changed after called
    exact add_mac_ip_changed _ db after tracks scan changed called

theorem db_invariant_taken_address : ∃ db,
    runScans [⟨[("aa".toList, "10".toList, [])], fun _ => ⟨[], 5⟩, fun _ => ⟨[], 5⟩⟩,
        ⟨[("bb".toList, "10".toList, [])], fun _ => ⟨[], 6⟩, fun _ => ⟨[], 6⟩⟩] = .ok db ∧
      (db.elems.map Elem.mac).Nodup ∧
      (∀ mac idx, db.macKeys mac = some idx ↔ (db.elems.map Elem.mac)[idx]? = some mac) ∧
      (∀ ip idx, db.ipKeys ip = some idx → idx < db.elems.length) ∧
      (∀ mac, mac ∈ (db.elems.filter Elem.isOpen).map Elem.mac ↔ mac ∈ ["bb".toList]) ∧
      ∀ scan changed after, db.addMacIp scan = .ok (changed, after) → (changed = false ↔ after = db) := by
  obtain ⟨db, run⟩ : ∃ db, runScans [⟨[("aa".toList, "10".toList, [])], fun _ => ⟨[], 5⟩, fun _ => ⟨[], 5⟩⟩,
      ⟨[("bb".toList, "10".toList, [])], fun _ => ⟨[], 6⟩, fun _ => ⟨[], 6⟩⟩] = .ok db := ⟨_, rfl⟩
  obtain ⟨distinct, keys, inside, opens, reports⟩ := db_invariant _ db run
  exact ⟨db, run, distinct, keys, inside, opens _ rfl, reports⟩

end Libx.NetScan

import Libx.Lib.Memo
import Libx.Lib.Search
import Libx.Net.Ipv4
import Libx.Net.Sniffer
import Mathlib.Data.List.DropRight
import Mathlib.Data.List.Induction

set_option autoImplicit false

namespace Libx.Net

open Memo (Store Tracks told)

def finds (s what : Text) : Bool := (Search.findFrom what s 0).isSome

def discard (c : Char) : Bool := c == ' ' || c == '\t'

def trim (s : Text) : Text := (s.dropWhile discard).rdropWhile discard

def removeEndl (s : Text) : Text := s.takeWhile fun c => c ≠ '\r' ∧ c ≠ '\n'

-- The members of whois_t that the sniffer prints; the net range is only stored.
structure Whois where
  orgName : Text
  country : Text
  customer : Text
deriving DecidableEq, Repr

inductive Key where
  | range
  | org
  | country
  | customer
deriving DecidableEq, Repr

def lineKey (s : Text) : Option Key :=
  if finds s "NetRange:".toList || finds s "inetnum:".toList then some .range
  else if finds s "OrgName:".toList || finds s "NetName:".toList || finds s "netname:".toList then some .org
  else if finds s "Country:".toList || finds s "country:".toList then some .country
  else if finds s "Customer:".toList then some .customer
  else none

def whoisLine (whois : Whois) (s : Text) : Whois :=
  match lineKey s with
  | some .org => { whois with orgName := trim (s.drop 8) }
  | some .country => { whois with country := trim (s.drop 8) }
  | some .customer => { whois with customer := trim (s.drop 9) }
  | some .range => whois
  | none => whois

theorem finds_long (s what : Text) (found : finds s what = true) : what.length ≤ s.length := by
  rw [finds, Option.isSome_iff_exists] at found
  obtain ⟨place, found⟩ := found
  by_contra short
  rw [(Search.find_none_iff what s 0).mpr fun inside => short inside.length_le] at found
  exact nomatch found

-- Where the callback cuts a line, the line is long enough: substr does not throw.
def Key.skip : Key → Nat
  | .range => 0
  | .org => 8
  | .country => 8
  | .customer => 9

theorem cut_inside (s : Text) (key : Key) (kind : lineKey s = some key) : key.skip ≤ s.length := by
  rw [lineKey] at kind
  split at kind
  · rw [← Option.some.inj kind]
    exact Nat.zero_le _
  · split at kind
    · rename_i org
      rw [← Option.some.inj kind]
      rw [Bool.or_eq_true, Bool.or_eq_true] at org
      obtain (one | two) | three := org
      · exact finds_long s _ one
      · exact finds_long s _ two
      · exact finds_long s _ three
    · split at kind
      · rename_i country
        rw [← Option.some.inj kind]
        rw [Bool.or_eq_true] at country
        cases country with
        | inl one => exact finds_long s _ one
        | inr two => exact finds_long s _ two
      · split at kind
        · rename_i customer
          rw [← Option.some.inj kind]
          exact finds_long s _ customer
        · exact nomatch kind

def lastLine (key : Key) (lines : List Text) (otherwise : Text) : Text :=
  match (lines.filter (lineKey · = some key)).getLast? with
  | some s => trim (s.drop key.skip)
  | none => otherwise

theorem whois_last (field : Whois → Text) (key : Key)
    (step : ∀ whois s, field (whoisLine whois s) = if lineKey s = some key then trim (s.drop key.skip) else field whois)
    (lines : List Text) (whois : Whois) : field (lines.foldl whoisLine whois) = lastLine key lines (field whois) := by
  induction lines using List.reverseRecOn with
  | nil => rfl
  | append_singleton lines s ih =>
      rw [List.foldl_append, List.foldl_cons, List.foldl_nil, step, lastLine, List.filter_append]
      by_cases own : lineKey s = some key
      · simp [own]
      · simp [own, ih, lastLine]

theorem whois_lines (lines : List Text) (whois : Whois) : lines.foldl whoisLine whois =
    ⟨lastLine .org lines whois.orgName, lastLine .country lines whois.country, lastLine .customer lines whois.customer⟩ := by
  have org := whois_last Whois.orgName .org (fun whois s => by rw [whoisLine]; split <;> simp_all [Key.skip]) lines whois
  have country := whois_last Whois.country .country (fun whois s => by rw [whoisLine]; split <;> simp_all [Key.skip]) lines whois
  have customer := whois_last Whois.customer .customer (fun whois s => by rw [whoisLine]; split <;> simp_all [Key.skip]) lines whois
  rw [← org, ← country, ← customer]

section Commands

-- What fgets reads from a command; it may change with the requests that were made before.
variable (popen : List UInt32 → Text → List Text)

-- The lines that pbx::execute hands to the callback, the command itself first.
def execute (asked : List UInt32) (cmd : Text) : List Text :=
  ("$ ".toList ++ cmd) :: (popen asked (cmd ++ " 2>&1".toList)).map removeEndl

def whoisCommand (ip : UInt32) : Text := "whois ".toList ++ ipIntToString ip false

def executeWhois (asked : List UInt32) (ip : UInt32) : Whois := (execute popen asked (whoisCommand ip)).foldl whoisLine ⟨[], [], []⟩

structure Ipcsv where
  date : Text
  ip : Text
  orgName : Text
  country : Text
  customer : Text
deriving DecidableEq, Repr

def ipcsv (asked : List UInt32) (date : Text) (ip : UInt32) : Ipcsv :=
  let whois := executeWhois popen asked ip
  ⟨date, ipIntToString ip false, whois.orgName, whois.country, whois.customer⟩

-- process_ip; `asked` is the record of the requests it makes.
def processIp (date : Text) (ip : UInt32) (ipmap : Store UInt32 Ipcsv) : Store UInt32 Ipcsv :=
  match ipmap.known ip with
  | some _ => ipmap
  | none => ⟨Function.update ipmap.known ip (some (ipcsv popen ipmap.asked date ip)), ipmap.asked ++ [ip]⟩

def ntohl (packet : Packet) (place : Nat) : UInt32 :=
  ofBytes (packet place) (packet (place + 1)) (packet (place + 2)) (packet (place + 3))

def saddr (packet : Packet) : UInt32 := ntohl packet 26
def daddr (packet : Packet) : UInt32 := ntohl packet 30

def processIphdr (date : Text) (packet : Packet) (myip : UInt32) (ipmap : Store UInt32 Ipcsv) : List UInt32 × Store UInt32 Ipcsv :=
  let source := saddr packet
  let dest := daddr packet
  let (rtn, ipmap) := if source ≠ myip then ([source], processIp popen date source ipmap) else ([], ipmap)
  if dest ≠ myip then (rtn ++ [dest], processIp popen date dest ipmap) else (rtn, ipmap)

def ownerText (ipmap : UInt32 → Option Ipcsv) (ip : UInt32) : Text :=
  match ipmap ip with
  | some found => found.orgName ++ ", ".toList ++ found.country ++ "; ".toList
  | none => []

-- One frame that fctor0 is called with, and the date that packet::start gives it.
structure Frame where
  date : Text
  packet : Packet

-- The owners that fctor0 writes behind the ports of a TCP packet.
def fctor0Owners (myip : UInt32) (frame : Frame) (ipmap : Store UInt32 Ipcsv) : Text × Store UInt32 Ipcsv :=
  if hproto frame.packet = 0x0800 then
    let (ips, ipmap) := processIphdr popen frame.date frame.packet myip ipmap
    if protocolCase frame.packet = 0x0600 then (ips.flatMap (ownerText ipmap.known), ipmap) else ([], ipmap)
  else ([], ipmap)

def sniff (myip : UInt32) : List Frame → Store UInt32 Ipcsv → List Text × Store UInt32 Ipcsv
  | [], ipmap => ([], ipmap)
  | frame :: rest, ipmap =>
      let (text, ipmap) := fctor0Owners popen myip frame ipmap
      let (texts, ipmap) := sniff myip rest ipmap
      (text :: texts, ipmap)

def Frame.addresses (myip : UInt32) (frame : Frame) : List UInt32 :=
  if hproto frame.packet = 0x0800 then [saddr frame.packet, daddr frame.packet].filter (· ≠ myip) else []

def Frame.looks (myip : UInt32) (frame : Frame) : List (Text × UInt32) := (frame.addresses myip).map fun ip => (frame.date, ip)

instance (packet : Packet) : Decidable (IsTcp packet) := inferInstanceAs (Decidable (_ ∧ _))

theorem process_ip_look (date : Text) (ip : UInt32) (ipmap : Store UInt32 Ipcsv) :
    processIp popen date ip ipmap = ipmap.look (ipcsv popen) (date, ip) := by
  rw [processIp, Store.look]
  cases ipmap.known ip with
  | some found => rfl
  | none => rfl

theorem process_iphdr_run (frame : Frame) (myip : UInt32) (ipmap : Store UInt32 Ipcsv) (isIp : hproto frame.packet = 0x0800) :
    processIphdr popen frame.date frame.packet myip ipmap =
      (frame.addresses myip, ipmap.run (ipcsv popen) (frame.looks myip)) := by
  rw [processIphdr, Frame.looks, Frame.addresses, if_pos isIp]
  by_cases source : saddr frame.packet = myip
  · by_cases dest : daddr frame.packet = myip
    · simp [source, dest, Store.run]
    · simp [source, dest, Store.run, process_ip_look]
  · by_cases dest : daddr frame.packet = myip
    · simp [source, dest, Store.run, process_ip_look]
    · simp [source, dest, Store.run, process_ip_look]

theorem owners_frame (myip : UInt32) (frame : Frame) (ipmap : Store UInt32 Ipcsv) :
    fctor0Owners popen myip frame ipmap =
      (if IsTcp frame.packet then
          (frame.addresses myip).flatMap (ownerText (ipmap.run (ipcsv popen) (frame.looks myip)).known) else [],
        ipmap.run (ipcsv popen) (frame.looks myip)) := by
  rw [fctor0Owners]
  by_cases isIp : hproto frame.packet = 0x0800
  · rw [if_pos isIp, process_iphdr_run popen frame myip ipmap isIp]
    by_cases tcp : protocolCase frame.packet = 0x0600
    · simp only [if_pos tcp]
      rw [if_pos ⟨isIp, (tcp_case frame.packet).mp tcp⟩]
    · simp only [if_neg tcp]
      rw [if_neg fun both => tcp ((tcp_case frame.packet).mpr both.2)]
  · have nothing : frame.looks myip = [] := by rw [Frame.looks, Frame.addresses, if_neg isIp, List.map_nil]
    rw [if_neg isIp, if_neg fun both => isIp both.1, nothing]
    rfl

def Frame.owners (myip : UInt32) (looks : List (Text × UInt32)) (frame : Frame) : Text :=
  if IsTcp frame.packet then (frame.addresses myip).flatMap (ownerText (told (ipcsv popen) [] looks)) else []

theorem frame_looks_keys (myip : UInt32) (frame : Frame) : (frame.looks myip).map Prod.snd = frame.addresses myip := by
  rw [Frame.looks, List.map_map]
  exact List.map_id _

theorem sniff_tracks (myip : UInt32) (frames : List Frame) (before : List (Text × UInt32)) (ipmap : Store UInt32 Ipcsv)
    (tracks : Tracks (ipcsv popen) before ipmap) :
    Tracks (ipcsv popen) (before ++ frames.flatMap (Frame.looks myip)) (sniff popen myip frames ipmap).2 ∧
      (sniff popen myip frames ipmap).1 =
        frames.map (Frame.owners popen myip (before ++ frames.flatMap (Frame.looks myip))) := by
  induction frames generalizing before ipmap with
  | nil =>
      rw [List.flatMap_nil, List.append_nil]
      exact ⟨tracks, rfl⟩
  | cons frame rest ih =>
      have here := Memo.run_tracks (ipcsv popen) before (frame.looks myip) ipmap tracks
      obtain ⟨after, texts⟩ := ih (before ++ frame.looks myip) _ here
      rw [List.append_assoc, ← List.flatMap_cons] at after texts
      simp only [sniff, owners_frame]
      refine ⟨after, ?_⟩
      have own : (if IsTcp frame.packet then
          (frame.addresses myip).flatMap (ownerText (ipmap.run (ipcsv popen) (frame.looks myip)).known) else []) =
          frame.owners popen myip (before ++ (frame :: rest).flatMap (Frame.looks myip)) := by
        rw [Frame.owners]
        refine if_congr Iff.rfl (List.flatMap_congr fun ip member => ?_) rfl
        have seen : ip ∈ (before ++ frame.looks myip).map Prod.snd := by
          rw [List.map_append, frame_looks_keys]
          exact List.mem_append_right _ member
        rw [ownerText, ownerText, here.known, List.flatMap_cons, ← List.append_assoc, Memo.told_append _ _ _ _ _ seen]
      rw [texts, own, List.map_cons]

theorem command_injective (one two : UInt32) (same : whoisCommand one = whoisCommand two) : one = two := by
  have texts := congrArg ipStringToInt (List.append_cancel_left same)
  rwa [int_string_int, int_string_int] at texts

def recorded (asked : List UInt32) (date : Text) (ip : UInt32) : Ipcsv :=
  let lines := execute popen asked (whoisCommand ip)
  ⟨date, ipIntToString ip false, lastLine .org lines [], lastLine .country lines [], lastLine .customer lines []⟩

theorem ipcsv_recorded : ipcsv popen = recorded popen := by
  funext asked date ip
  rw [ipcsv, executeWhois, whois_lines, recorded]

theorem owners_cached (myip : UInt32) (frames : List Frame) :
    let looks := frames.flatMap (Frame.looks myip)
    let (texts, ipmap) := sniff popen myip frames Memo.empty
    ipmap.asked = (looks.map Prod.snd).eraseDups ∧ (ipmap.asked.map whoisCommand).Nodup ∧
    (∀ ip, ipmap.known ip = told (recorded popen) [] looks ip) ∧
    (∀ s key, lineKey s = some key → key.skip ≤ s.length) ∧
    (∀ frame ∈ frames, ∀ ip ∈ frame.addresses myip, (ipmap.known ip).isSome) ∧
    texts = frames.map fun frame =>
      if IsTcp frame.packet then (frame.addresses myip).flatMap (ownerText (told (recorded popen) [] looks)) else [] := by
  intro looks
  obtain ⟨after, texts⟩ := sniff_tracks popen myip frames [] Memo.empty (Memo.empty_tracks (ipcsv popen))
  rw [List.nil_append] at after texts
  have known := after.known
  rw [ipcsv_recorded] at known
  refine ⟨after.asked, ?_, known, cut_inside, fun frame member ip address => ?_, ?_⟩
  · rw [after.asked]
    exact (Memo.erase_dups_nodup _).map fun one two same => command_injective one two same
  · have seen : ip ∈ looks.map Prod.snd := by
      refine List.mem_map.mpr ⟨(frame.date, ip), List.mem_flatMap.mpr ⟨frame, member, ?_⟩, rfl⟩
      exact List.mem_map_of_mem address
    rw [after.known]
    cases record : told (ipcsv popen) [] looks ip with
    | some found => rfl
    | none => exact absurd seen ((Memo.told_none_iff _ [] looks ip).mp record)
  · rw [texts, ← ipcsv_recorded]
    rfl

end Commands

end Libx.Net

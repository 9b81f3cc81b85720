import Libx.NetScan.Db
import Libx.NetScan.HostBlocks
import Libx.Lib.Search

set_option autoImplicit false

namespace Libx.NetScan

open HostBlocks

section Extracts

-- pbx::regex_search: the match and its groups, nothing where there is none.
variable (regexSearch : Text → Text → List Text)

def firstMatch (regex str : Text) : Bool × Text :=
  match regexSearch str regex with
  | first :: _ => (true, first)
  | [] => (false, [])

def ipRegex : Text :=
  "(?:(?:25[0-5]|2[0-4][0-9]|[01]?[0-9][0-9]?)\\.)\x7b3\x7d(?:25[0-5]|2[0-4][0-9]|[01]?[0-9][0-9]?)".toList

def macRegex : Text := "([0-9A-Fa-f]\x7b2\x7d:)\x7b5\x7d[0-9A-Fa-f]\x7b2\x7d".toList

def parenthesisRegex : Text := "\\(([^)]+)\\)".toList

def getIpAddress (str : Text) : Bool × Text := firstMatch regexSearch ipRegex str

def getMacAddress (str : Text) : Bool × Text := firstMatch regexSearch macRegex str

def getBetweenParenthesis (str : Text) : Bool × Text := firstMatch regexSearch parenthesisRegex str

end Extracts

-- What the loop of scan looks up in one line of the output. The strings it
-- moves about are of any types.
structure NmapLine (I M : Type) where
  isReport : Bool
  ip : Bool × I
  isMac : Bool
  mac : Bool × M
  what : Text

def NmapLine.read (regexSearch : Text → Text → List Text) (iter : Text) : NmapLine Text Text where
  isReport := (Search.findFrom "Nmap scan report for".toList iter 0).isSome
  ip := getIpAddress regexSearch iter
  isMac := (Search.findFrom "MAC Address".toList iter 0).isSome
  mac := getMacAddress regexSearch iter
  what := (getBetweenParenthesis regexSearch iter).2

structure NmapState (I M : Type) where
  bip : Bool
  bmac : Bool
  ip : I
  mac : M
  what : Text
  macips : List (M × I × Text)

section Loop

variable {I M : Type} [Inhabited I] [Inhabited M]

def NmapState.start : NmapState I M := ⟨false, false, default, default, [], []⟩

def NmapState.line (s : NmapState I M) (iter : NmapLine I M) : NmapState I M :=
  let s := if iter.isReport then { s with bip := iter.ip.1, ip := iter.ip.2 } else s
  let s := if iter.isMac then { s with bmac := iter.mac.1, mac := iter.mac.2, what := iter.what } else s
  if s.bip && s.bmac then
    { s with macips := s.macips ++ [(s.mac, s.ip, s.what)], bip := false, bmac := false, ip := default, mac := default }
  else s

def macipsOf (lines : List (NmapLine I M)) : List (M × I × Text) := (lines.foldl NmapState.line .start).macips

end Loop

def readLines (regexSearch : Text → Text → List Text) (subNet : List Text) : List (NmapLine Text Text) :=
  subNet.map (NmapLine.read regexSearch)

-- scan_t::scan on the lines of the command's output.
def scan (regexSearch : Text → Text → List Text) (subNet : List Text) (closing adding : Nat → Instant) (db : Db) :
    Except Fault (Bool × Db) :=
  db.addMacIp ⟨macipsOf (readLines regexSearch subNet), closing, adding⟩

section Kinds

variable {I M : Type} [Inhabited I] [Inhabited M]

def found {A : Type} (result : Bool × A) : Option A := if result.1 then some result.2 else none

def NmapLine.kind (iter : NmapLine I M) : Kind I M :=
  if iter.isReport then .report (found iter.ip) else if iter.isMac then .mac (found iter.mac) else .other

def pairOf (macip : M × I × Text) : M × I := (macip.1, macip.2.1)

def NmapState.kept (s : NmapState I M) : Kept I M :=
  if s.bip then .address s.ip else if s.bmac then .mac s.mac else .nothing

theorem line_meets (s : NmapState I M) (iter : NmapLine I M) (apart : ¬ (s.bip = true ∧ s.bmac = true))
    (exclusive : ¬ (iter.isReport = true ∧ iter.isMac = true)) :
    ¬ ((s.line iter).bip = true ∧ (s.line iter).bmac = true) ∧ (s.line iter).kept = (meet s.kept iter.kind).2 ∧
      (s.line iter).macips.map pairOf = s.macips.map pairOf ++ (meet s.kept iter.kind).1 := by
  obtain ⟨bip, bmac, ip, mac, what, macips⟩ := s
  obtain ⟨isReport, ⟨hasIp, lineIp⟩, isMac, ⟨hasMac, lineMac⟩, lineWhat⟩ := iter
  cases isReport with
  | true =>
      obtain rfl : isMac = false := by simpa using exclusive
      cases bip <;> cases bmac <;> cases hasIp <;>
        simp_all [NmapState.line, NmapState.kept, NmapLine.kind, found, meet, pairOf]
  | false =>
      cases isMac with
      | true =>
          cases bip <;> cases bmac <;> cases hasMac <;>
            simp_all [NmapState.line, NmapState.kept, NmapLine.kind, found, meet, pairOf]
      | false => cases bip <;> cases bmac <;> simp_all [NmapState.line, NmapState.kept, NmapLine.kind, meet]

theorem lines_meet (lines : List (NmapLine I M)) (s : NmapState I M) (apart : ¬ (s.bip = true ∧ s.bmac = true))
    (exclusive : ∀ iter ∈ lines, ¬ (iter.isReport = true ∧ iter.isMac = true)) :
    (lines.foldl NmapState.line s).macips.map pairOf = s.macips.map pairOf ++ pairsFrom s.kept (lines.map NmapLine.kind) := by
  induction lines generalizing s with
  | nil => simp [pairsFrom]
  | cons iter rest ih =>
      obtain ⟨next, kept, pairs⟩ := line_meets s iter apart (exclusive iter (by simp))
      rw [List.foldl_cons, ih (s.line iter) next fun later member => exclusive later (by simp [member]), pairs, kept, List.map_cons,
        pairsFrom, List.append_assoc]

theorem macips_pairs (lines : List (NmapLine I M)) (exclusive : ∀ iter ∈ lines, ¬ (iter.isReport = true ∧ iter.isMac = true)) :
    (macipsOf lines).map pairOf = pairsFrom .nothing (lines.map NmapLine.kind) :=
  lines_meet lines .start (by simp [NmapState.start]) exclusive

def NmapLine.tag (place : Nat) (iter : NmapLine I M) : NmapLine (Nat × I) (Nat × M) :=
  { iter with ip := (iter.ip.1, (place, iter.ip.2)), mac := (iter.mac.1, (place, iter.mac.2)) }

def tagLines : Nat → List (NmapLine I M) → List (NmapLine (Nat × I) (Nat × M))
  | _, [] => []
  | place, iter :: rest => iter.tag place :: tagLines (place + 1) rest

def untagged (macip : (Nat × M) × (Nat × I) × Text) : M × I × Text := (macip.1.2, macip.2.1.2, macip.2.2)

def NmapState.untag (s : NmapState (Nat × I) (Nat × M)) : NmapState I M :=
  ⟨s.bip, s.bmac, s.ip.2, s.mac.2, s.what, s.macips.map untagged⟩

theorem line_untags (s : NmapState (Nat × I) (Nat × M)) (place : Nat) (iter : NmapLine I M) :
    (s.line (iter.tag place)).untag = s.untag.line iter := by
  obtain ⟨bip, bmac, ip, mac, what, macips⟩ := s
  obtain ⟨isReport, ⟨hasIp, lineIp⟩, isMac, ⟨hasMac, lineMac⟩, lineWhat⟩ := iter
  cases isReport <;> cases isMac <;> cases bip <;> cases bmac <;> cases hasIp <;> cases hasMac <;>
    simp [NmapState.line, NmapState.untag, NmapLine.tag, untagged] <;> exact ⟨rfl, rfl⟩

theorem tagged_macips (lines : List (NmapLine I M)) : (macipsOf (tagLines 0 lines)).map untagged = macipsOf lines := by
  have run (place : Nat) (s : NmapState (Nat × I) (Nat × M)) :
      ((tagLines place lines).foldl NmapState.line s).untag = lines.foldl NmapState.line s.untag := by
    induction lines generalizing place s with
    | nil => rfl
    | cons iter rest ih => rw [tagLines, List.foldl_cons, List.foldl_cons, ih, line_untags]
  exact congrArg NmapState.macips (run 0 .start)

omit [Inhabited I] [Inhabited M] in
theorem tagged_kinds (place : Nat) (lines : List (NmapLine I M)) :
    (tagLines place lines).map NmapLine.kind = number place (lines.map NmapLine.kind) := by
  induction lines generalizing place with
  | nil => rfl
  | cons iter rest ih =>
      have same : (iter.tag place).kind = iter.kind.tag place := by
        obtain ⟨isReport, ⟨hasIp, lineIp⟩, isMac, ⟨hasMac, lineMac⟩, lineWhat⟩ := iter
        cases isReport <;> cases isMac <;> cases hasIp <;> cases hasMac <;> rfl
      rw [tagLines, List.map_cons, List.map_cons, number, ih, same]

omit [Inhabited I] [Inhabited M] in
theorem tagged_exclusive (place : Nat) (lines : List (NmapLine I M))
    (exclusive : ∀ iter ∈ lines, ¬ (iter.isReport = true ∧ iter.isMac = true)) :
    ∀ iter ∈ tagLines place lines, ¬ (iter.isReport = true ∧ iter.isMac = true) := by
  induction lines generalizing place with
  | nil => exact fun iter member => absurd member List.not_mem_nil
  | cons iter rest ih =>
      obtain ⟨here, later⟩ := List.forall_mem_cons.mp exclusive
      exact List.forall_mem_cons.mpr ⟨here, ih (place + 1) later⟩

end Kinds

theorem nmap_paired_iff (regexSearch : Text → Text → List Text) (subNet : List Text)
    (exclusive : ∀ iter ∈ readLines regexSearch subNet, ¬ (iter.isReport = true ∧ iter.isMac = true)) :
    (macipsOf (tagLines 0 (readLines regexSearch subNet))).map untagged = macipsOf (readLines regexSearch subNet) ∧
      (Paired ((tagLines 0 (readLines regexSearch subNet)).map NmapLine.kind)
          ((macipsOf (tagLines 0 (readLines regexSearch subNet))).map pairOf) ↔
        ¬ Stray ((readLines regexSearch subNet).map NmapLine.kind)) := by
  refine ⟨tagged_macips _, ?_⟩
  have apart := tagged_exclusive 0 _ exclusive
  rw [macips_pairs _ apart, tagged_kinds]
  exact paired_iff _

def unnamedHost : List Text := ["Nmap scan report for fe80::1".toList, "MAC Address: B8:EC:A3:CF:69:C6".toList]

def nextHost : List Text := ["Nmap scan report for 192.168.0.106".toList, "MAC Address: 70:CE:8C:46:66:88".toList]

def sampleSearch (subject regex : Text) : List Text :=
  if subject = "Nmap scan report for 192.168.0.106".toList then
    if regex = ipRegex then ["192.168.0.106".toList] else []
  else if subject = "MAC Address: B8:EC:A3:CF:69:C6".toList then
    if regex = macRegex then ["B8:EC:A3:CF:69:C6".toList, "69:".toList] else []
  else if subject = "MAC Address: 70:CE:8C:46:66:88".toList then
    if regex = macRegex then ["70:CE:8C:46:66:88".toList, "66:".toList] else []
  else []

theorem nmap_paired_host :
    (macipsOf (tagLines 0 (readLines sampleSearch nextHost))).map untagged = macipsOf (readLines sampleSearch nextHost) ∧
      (Paired ((tagLines 0 (readLines sampleSearch nextHost)).map NmapLine.kind)
          ((macipsOf (tagLines 0 (readLines sampleSearch nextHost))).map pairOf) ↔
        ¬ Stray ((readLines sampleSearch nextHost).map NmapLine.kind)) :=
  nmap_paired_iff sampleSearch nextHost (by decide +kernel)

theorem nmap_pairs_two_hosts :
    (∀ iter ∈ readLines sampleSearch (unnamedHost ++ nextHost), ¬ (iter.isReport = true ∧ iter.isMac = true)) ∧
      ¬ Paired ((tagLines 0 (readLines sampleSearch (unnamedHost ++ nextHost))).map NmapLine.kind)
        ((macipsOf (tagLines 0 (readLines sampleSearch (unnamedHost ++ nextHost)))).map pairOf) := by
  have exclusive : ∀ iter ∈ readLines sampleSearch (unnamedHost ++ nextHost), ¬ (iter.isReport = true ∧ iter.isMac = true) := by
    decide +kernel
  refine ⟨exclusive, fun paired => ?_⟩
  have kinds : (tagLines 0 (readLines sampleSearch (unnamedHost ++ nextHost))).map NmapLine.kind =
      [.report none, .mac (some (1, "B8:EC:A3:CF:69:C6".toList)), .report (some (2, "192.168.0.106".toList)),
        .mac (some (3, "70:CE:8C:46:66:88".toList))] := by
    decide +kernel
  have pushed : ((1, "B8:EC:A3:CF:69:C6".toList), (2, "192.168.0.106".toList)) ∈
      (macipsOf (tagLines 0 (readLines sampleSearch (unnamedHost ++ nextHost)))).map pairOf := by
    rw [macips_pairs _ (tagged_exclusive 0 _ exclusive), kinds]
    exact List.mem_singleton_self _
  obtain ⟨block, member, address, listed⟩ := paired.within _ _ pushed
  rw [kinds] at member
  simp only [blocks, macsOf, List.mem_cons, List.not_mem_nil, or_false] at member
  rcases member with rfl | rfl
  · simp at address
  · simp at listed

end Libx.NetScan

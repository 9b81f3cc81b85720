import Libx.Lib.Journal
import Libx.NetScan.Report

set_option autoImplicit false

namespace Libx.NetScan

-- The lines that LOG writes: 35=A and 35=5 by scan_t, 35=D, 35=G and 35=F by elem_t.
inductive LogEvent where
  | logon
  | logout
  | arrived (mac ip timeIn what : Text)
  | closed (mac ip timeIn timeOut : Text)
  | opened (mac ip timeOut timeIn : Text)
deriving DecidableEq

-- The arguments of LOG.log, which it writes one after the other.
def LogEvent.arguments : LogEvent → List Text
  | .logon => ["35=A;".toList]
  | .logout => ["35=5;".toList]
  | .arrived mac ip timeIn what => ["35=D;48=".toList, mac, ";55=".toList, ip, ";52=".toList, timeIn, ";106=".toList, what]
  | .closed mac ip timeIn timeOut => ["35=G;48=".toList, mac, ";55=".toList, ip, ";52=".toList, timeIn, ";53=".toList, timeOut]
  | .opened mac ip timeOut timeIn => ["35=F;48=".toList, mac, ";55=".toList, ip, ";53=".toList, timeOut, ";52=".toList, timeIn]

-- One call of LOG.log: `now` is what pbx::now() gives inside it.
structure LogLine where
  now : Text
  event : LogEvent

def LogLine.text (line : LogLine) : Text := line.now ++ ' ' :: line.event.arguments.flatten ++ ['\n']

def logText (lines : List LogLine) : Text := lines.flatMap LogLine.text

namespace Elem

def newLogged (logNow : Text) (now : Instant) (mac ip what : Text) : Elem × List LogLine :=
  let elem := Elem.new now mac ip what
  (elem, [⟨logNow, .arrived elem.mac elem.ip elem.timeIn elem.what⟩])

def setCloseLogged (logNow : Text) (now : Instant) (elem : Elem) : Except Fault (Elem × List LogLine) := do
  let elem ← elem.setClose now
  return (elem, [⟨logNow, .closed elem.mac elem.ip elem.timeIn elem.timeOut⟩])

def setOpenLogged (logNow : Text) (now : Instant) (ip : Text) (elem : Elem) : Except Fault (Elem × List LogLine) := do
  let elem ← elem.setOpen now ip
  return (elem, [⟨logNow, .opened elem.mac elem.ip elem.timeOut elem.timeIn⟩])

end Elem

-- A scan with the clock that the log reads when element i is closed and when
-- triple j is added.
structure LoggedScan extends Scan where
  logClosing : Nat → Text
  logAdding : Nat → Text

namespace Db

def setOpenAtLogged (db : Db) (idx : Nat) (logNow : Text) (now : Instant) (ip : Text) : Except Fault (Db × List LogLine) := do
  let elem ← db.elemAt idx
  let (elem, written) ← elem.setOpenLogged logNow now ip
  return ({ db with elems := db.elems.set idx elem }, written)

def addTripleLogged (logNow : Text) (now : Instant) (macip : MacIp) (db : Db) :
    Except Fault ((Bool × Db) × List LogLine) :=
  let (mac, ip, what) := macip
  match db.macKeys mac, db.ipKeys ip with
  | some idxMac, some idxIp => do
      let current ← if idxMac = idxIp then (db.elemAt idxMac).map Elem.isOpen else .ok false
      if current then return ((false, db), [])
      else
        let (db, written) ← (db.setIpKey ip idxMac).setOpenAtLogged idxMac logNow now ip
        return ((true, db), written)
  | none, _ =>
      let idx := db.elems.length
      let (elem, written) := Elem.newLogged logNow now mac ip what
      let db := { db with elems := db.elems ++ [elem], macKeys := Function.update db.macKeys mac (some idx) }
      .ok ((true, db.setIpKey ip idx), written)
  | some idx, none => do
      let (db, written) ← (db.setIpKey ip idx).setOpenAtLogged idx logNow now ip
      let elem ← db.elemAt idx
      if elem.mac = mac then return ((true, db), written) else .error .assertion

def addTriplesLogged (scan : LoggedScan) : Nat → List MacIp → Db → Except Fault ((Bool × Db) × List LogLine)
  | _, [], db => .ok ((false, db), [])
  | j, macip :: rest, db => do
      let ((here, db), written) ← db.addTripleLogged (scan.logAdding j) (scan.adding j) macip
      let ((later, db), more) ← addTriplesLogged scan (j + 1) rest db
      return ((here || later, db), written ++ more)

def closeAbsentLogged (scan : LoggedScan) : Nat → List Elem → Except Fault ((Bool × List Elem) × List LogLine)
  | _, [] => .ok ((false, []), [])
  | i, elem :: rest => do
      let (next, written) ←
        if elem.away scan.macs then elem.setCloseLogged (scan.logClosing i) (scan.closing i) else .ok (elem, [])
      let ((later, rest), more) ← closeAbsentLogged scan (i + 1) rest
      return ((elem.away scan.macs || later, next :: rest), written ++ more)

def addMacIpLogged (scan : LoggedScan) (db : Db) : Except Fault ((Bool × Db) × List LogLine) := do
  let ((closed, elems), written) ← closeAbsentLogged scan 0 db.elems
  let ((added, db), more) ← addTriplesLogged scan 0 scan.triples { db with elems }
  return ((closed || added, db), written ++ more)

end Db

def scanStepLogged (scan : LoggedScan) (db : Db) : Except Fault (Db × List LogLine) :=
  (db.addMacIpLogged scan).map fun done => (done.1.2, done.2)

-- What the process writes: the constructor of scan_t, then its scans.
def runScansLogged (logNow : Text) (scans : List LoggedScan) : Except Fault (Db × List LogLine) :=
  (Journal.runLogged scanStepLogged scans Db.empty).map fun done => (done.1, ⟨logNow, .logon⟩ :: done.2)

theorem set_close_plain (logNow : Text) (now : Instant) (elem : Elem) :
    (elem.setCloseLogged logNow now).map Prod.fst = elem.setClose now := by
  rw [Elem.setCloseLogged]
  cases elem.setClose now <;> rfl

theorem set_open_at_plain (db : Db) (idx : Nat) (logNow : Text) (now : Instant) (ip : Text) :
    (db.setOpenAtLogged idx logNow now ip).map Prod.fst = db.setOpenAt idx now ip := by
  rw [Db.setOpenAtLogged, Db.setOpenAt]
  cases db.elemAt idx with
  | error fault => rfl
  | ok elem =>
      rw [Fallible.ok_bind, Fallible.ok_bind, Elem.setOpenLogged]
      cases elem.setOpen now ip <;> rfl

theorem add_triple_plain (logNow : Text) (now : Instant) (macip : MacIp) (db : Db) :
    (db.addTripleLogged logNow now macip).map Prod.fst = db.addTriple now macip := by
  obtain ⟨mac, ip, what⟩ := macip
  rw [Db.addTripleLogged, Db.addTriple]
  cases db.macKeys mac with
  | none => rfl
  | some idx =>
      have opens := set_open_at_plain (db.setIpKey ip idx) idx logNow now ip
      cases db.ipKeys ip with
      | none =>
          simp only [← opens]
          cases (db.setIpKey ip idx).setOpenAtLogged idx logNow now ip with
          | error fault => rfl
          | ok opened =>
              simp only [Fallible.ok_bind, Fallible.ok_map]
              cases opened.1.elemAt idx with
              | error fault => rfl
              | ok elem =>
                  simp only [Fallible.ok_bind]
                  split <;> rfl
      | some idxIp =>
          simp only [← opens]
          by_cases same : idx = idxIp
          · simp only [if_pos same]
            cases (db.elemAt idx).map Elem.isOpen with
            | error fault => rfl
            | ok current =>
                cases current with
                | true => rfl
                | false => cases (db.setIpKey ip idx).setOpenAtLogged idx logNow now ip <;> rfl
          · simp only [if_neg same, Fallible.ok_bind]
            cases (db.setIpKey ip idx).setOpenAtLogged idx logNow now ip <;> rfl

theorem add_triples_plain (scan : LoggedScan) (j : Nat) (triples : List MacIp) (db : Db) :
    (db.addTriplesLogged scan j triples).map Prod.fst = db.addTriples scan.adding j triples := by
  induction triples generalizing j db with
  | nil => rfl
  | cons macip rest ih =>
      rw [Db.addTriplesLogged, Db.addTriples, ← add_triple_plain (scan.logAdding j) (scan.adding j) macip db]
      cases db.addTripleLogged (scan.logAdding j) (scan.adding j) macip with
      | error fault => rfl
      | ok first =>
          simp only [Fallible.ok_bind, Fallible.ok_map, ← ih (j + 1) first.1.2]
          cases Db.addTriplesLogged scan (j + 1) rest first.1.2 <;> rfl

theorem close_absent_plain (scan : LoggedScan) (i : Nat) (elems : List Elem) :
    (Db.closeAbsentLogged scan i elems).map Prod.fst = Db.closeAbsent scan.macs scan.closing i elems := by
  induction elems generalizing i with
  | nil => rfl
  | cons elem rest ih =>
      have later := ih (i + 1)
      by_cases away : elem.away scan.macs = true
      · simp only [Db.closeAbsentLogged, Db.closeAbsent, if_pos away, ← later, ← set_close_plain (scan.logClosing i)]
        cases elem.setCloseLogged (scan.logClosing i) (scan.closing i) with
        | error fault => rfl
        | ok closed => cases Db.closeAbsentLogged scan (i + 1) rest <;> rfl
      · simp only [Db.closeAbsentLogged, Db.closeAbsent, if_neg away, ← later, Fallible.ok_bind]
        cases Db.closeAbsentLogged scan (i + 1) rest <;> rfl

theorem add_mac_ip_plain (scan : LoggedScan) (db : Db) :
    (db.addMacIpLogged scan).map Prod.fst = db.addMacIp scan.toScan := by
  rw [Db.addMacIpLogged, Db.addMacIp, ← close_absent_plain scan 0 db.elems]
  cases Db.closeAbsentLogged scan 0 db.elems with
  | error fault => rfl
  | ok closed =>
      simp only [Fallible.ok_bind, Fallible.ok_map, ← add_triples_plain]
      cases Db.addTriplesLogged scan 0 scan.triples { db with elems := closed.1.2 } <;> rfl

theorem scan_step_plain (scan : LoggedScan) (db : Db) : (scanStepLogged scan db).map Prod.fst = scanStep scan.toScan db := by
  rw [scanStepLogged, scanStep, ← add_mac_ip_plain]
  cases db.addMacIpLogged scan <;> rfl

end Libx.NetScan

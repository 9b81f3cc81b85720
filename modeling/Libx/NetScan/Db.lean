import Libx.Text
import Libx.Lib.Fallible
import Mathlib.Logic.Function.Basic

set_option autoImplicit false

namespace Libx.NetScan

abbrev MacIp := Text × Text × Text

-- What pbx::now() and pbx::now_as_int() give at one moment.
structure Instant where
  text : Text
  secs : UInt32

inductive Fault where
  | assertion
  | outOfRange
deriving DecidableEq, Repr

structure Elem where
  isOpen : Bool
  mac : Text
  ip : Text
  what : Text
  timeIn : Text
  timeOut : Text
  timeInInt : UInt32
  timeOutInt : UInt32
  setOpenSz : UInt32

namespace Elem

def new (now : Instant) (mac ip what : Text) : Elem := ⟨true, mac, ip, what, now.text, [], now.secs, 0, 0⟩

def closed (now : Instant) (elem : Elem) : Elem := { elem with isOpen := false, timeOut := now.text, timeOutInt := now.secs }

def opened (now : Instant) (ip : Text) (elem : Elem) : Elem :=
  { elem with isOpen := true, ip := ip, timeIn := now.text, timeInInt := now.secs, setOpenSz := elem.setOpenSz + 1 }

def setClose (now : Instant) (elem : Elem) : Except Fault Elem :=
  if elem.isOpen = true ∧ elem.timeOutInt < elem.timeInInt then .ok (elem.closed now) else .error .assertion

def setOpen (now : Instant) (ip : Text) (elem : Elem) : Except Fault Elem :=
  if elem.isOpen = false ∧ elem.timeInInt < elem.timeOutInt then .ok (elem.opened now ip) else .error .assertion

-- The condition of the first loop: open, and find_if does not find the MAC.
def away (macs : List Text) (elem : Elem) : Bool := elem.isOpen ∧ elem.mac ∉ macs

end Elem

structure Db where
  elems : List Elem
  macKeys : Text → Option Nat
  ipKeys : Text → Option Nat

-- One call of add_mac_ip with the clock it reads: `closing i` when it closes
-- element i, `adding j` when it adds triple j.
structure Scan where
  triples : List MacIp
  closing : Nat → Instant
  adding : Nat → Instant

def Scan.macs (scan : Scan) : List Text := scan.triples.map Prod.fst

namespace Db

def empty : Db := ⟨[], fun _ => none, fun _ => none⟩

-- _elems[idx]: operator[] does not check.
def elemAt (db : Db) (idx : Nat) : Except Fault Elem :=
  match db.elems[idx]? with
  | none => .error .outOfRange
  | some elem => .ok elem

def setOpenAt (db : Db) (idx : Nat) (now : Instant) (ip : Text) : Except Fault Db := do
  let elem ← db.elemAt idx
  let elem ← elem.setOpen now ip
  return { db with elems := db.elems.set idx elem }

def setIpKey (db : Db) (ip : Text) (idx : Nat) : Db := { db with ipKeys := Function.update db.ipKeys ip (some idx) }

-- The private add_mac_ip.
def addTriple (now : Instant) (macip : MacIp) (db : Db) : Except Fault (Bool × Db) :=
  let (mac, ip, what) := macip
  match db.macKeys mac, db.ipKeys ip with
  | some idxMac, some idxIp => do
      let current ← if idxMac = idxIp then (db.elemAt idxMac).map Elem.isOpen else .ok false
      if current then return (false, db)
      else
        let db ← (db.setIpKey ip idxMac).setOpenAt idxMac now ip
        return (true, db)
  | none, _ =>
      let idx := db.elems.length
      let db := { db with
        elems := db.elems ++ [Elem.new now mac ip what]
        macKeys := Function.update db.macKeys mac (some idx) }
      .ok (true, db.setIpKey ip idx)
  | some idx, none => do
      let db ← (db.setIpKey ip idx).setOpenAt idx now ip
      let elem ← db.elemAt idx
      if elem.mac = mac then return (true, db) else .error .assertion

def addTriples (adding : Nat → Instant) : Nat → List MacIp → Db → Except Fault (Bool × Db)
  | _, [], db => .ok (false, db)
  | j, macip :: rest, db => do
      let (here, db) ← db.addTriple (adding j) macip
      let (later, db) ← addTriples adding (j + 1) rest db
      return (here || later, db)

def closeAbsent (macs : List Text) (closing : Nat → Instant) : Nat → List Elem → Except Fault (Bool × List Elem)
  | _, [] => .ok (false, [])
  | i, elem :: rest => do
      let next ← if elem.away macs then elem.setClose (closing i) else .ok elem
      let (later, rest) ← closeAbsent macs closing (i + 1) rest
      return (elem.away macs || later, next :: rest)

-- The public add_mac_ip.
def addMacIp (scan : Scan) (db : Db) : Except Fault (Bool × Db) := do
  let (closed, elems) ← closeAbsent scan.macs scan.closing 0 db.elems
  let (added, db) ← addTriples scan.adding 0 scan.triples { db with elems }
  return (closed || added, db)

end Db

def scanStep (scan : Scan) (db : Db) : Except Fault Db := (db.addMacIp scan).map Prod.snd

def runScans (scans : List Scan) : Except Fault Db := Fallible.run scanStep scans Db.empty

end Libx.NetScan

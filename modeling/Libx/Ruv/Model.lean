import Libx.Lib.Counted
import Libx.Text
import Mathlib.Data.Fintype.Basic
import Mathlib.Logic.Function.Basic

set_option autoImplicit false

namespace Libx.Viewer

open Counted (Groups)

abbrev TagVal := Text × Text
abbrev Column := Fin 3

inductive Ruv where
  | node (tag : Text) (val : Column → Text) (children : List Ruv)

namespace Ruv

def tag : Ruv → Text
  | .node tag _ _ => tag

def val : Ruv → Column → Text
  | .node _ val _ => val

def children : Ruv → List Ruv
  | .node _ _ children => children

def setVal (idx : Column) (value : Text) : Ruv → Ruv
  | .node tag val children => .node tag (Function.update val idx value) children

def setChildren (children : List Ruv) : Ruv → Ruv
  | .node tag val _ => .node tag val children

-- The constructors ruv(tag_, ts_...) and ruv(tag_, idx_, val_).
def new (pair : TagVal) : Ruv := .node pair.1 (Function.update (fun _ => []) 0 pair.2) []
def newAt (idx : Column) (pair : TagVal) : Ruv := .node pair.1 (Function.update (fun _ => []) idx pair.2) []

end Ruv

inductive Fault where
  | outOfRange (index : Nat)
  | fuel
deriving DecidableEq, Repr

-- The locals of one rmake call that its loop changes: the children of rT_ and
-- countingTheRPGs, which is 0 for a tag it does not hold.
structure Level where
  children : List Ruv
  counting : Text → Nat

def Level.bump (level : Level) (tag : Text) : Level :=
  { level with counting := Function.update level.counting tag (level.counting tag + 1) }

-- The loop over the children that looks for the wanted occurrence of a counter
-- tag and computes, in `ref`, where to insert the node otherwise.
def seekEntry (tag : Text) (wanted : Nat) : List Ruv → Nat → Nat → Nat → Option Nat × Nat
  | [], _, ref, _ => (none, ref)
  | p :: rest, i, ref, count =>
      if p.tag = tag then
        if count + 1 = wanted then (some i, ref + 1) else seekEntry tag wanted rest (i + 1) (ref + 1) (count + 1)
      else if count ≠ 0 then seekEntry tag wanted rest (i + 1) (ref + 1 - 1) count
      else seekEntry tag wanted rest (i + 1) (ref + 1) count

def placeEntry (idx : Column) (pair : TagVal) (wanted : Nat) (children : List Ruv) : List Ruv × Nat :=
  if idx = 0 then (children ++ [Ruv.new pair], children.length)
  else match seekEntry pair.1 wanted children 0 0 0 with
    | (some i, _) => (children, i)
    | (none, ref) => (children.insertIdx ref (Ruv.newAt idx pair), ref)

def setField (idx : Column) (pair : TagVal) : List Ruv → List Ruv
  | [] => [Ruv.newAt idx pair]
  | p :: rest => if p.tag = pair.1 then p.setVal idx pair.2 :: rest else p :: setField idx pair rest

def addField (idx : Column) (pair : TagVal) (children : List Ruv) : List Ruv :=
  if idx = 0 then children ++ [Ruv.new pair] else setField idx pair children

def childrenAt (i : Nat) (nodes : List Ruv) : List Ruv :=
  match nodes[i]? with
  | some p => p.children
  | none => []

-- rTagVals_[pos]: operator[] does not check.
def readPair (rTagVals : List TagVal) (pos : Nat) : Except Fault TagVal :=
  match rTagVals[pos]? with
  | none => .error (.outOfRange pos)
  | some pair => .ok pair

def nextPair (rTagVals : List TagVal) (pos : Nat) (npair : TagVal) : Except Fault TagVal :=
  if pos < rTagVals.length then readPair rTagVals pos else .ok npair

-- `rmakeEntries` is the inner while. Positions are naturals; the source returns
-- them as int, which is the same for every list of less than 2^31 pairs.
mutual
def rmake (rTagVals : List TagVal) (rRPGs : Groups Text) (idx : Column) :
    Nat → Level → Nat → Option (Finset Text) → Except Fault (Level × Nat)
  | 0, _, _, _ => .error .fuel
  | fuel + 1, level, inc, pRPG =>
      if inc < rTagVals.length then do
        let pair ← readPair rTagVals inc
        if pRPG.any (pair.1 ∉ ·) then
          return (level, inc)
        else
          let pRPG := pRPG.map (·.erase pair.1)
          match rRPGs pair.1 with
          | some rRptTags =>
              let pos := inc + 1
              let npair ← readPair rTagVals pos
              if pos < rTagVals.length ∧ npair.1 ∈ rRptTags then do
                let (level, inc) ← rmakeEntries rTagVals rRPGs idx pair rRptTags fuel level pos npair
                rmake rTagVals rRPGs idx fuel level inc pRPG
              else rmake rTagVals rRPGs idx fuel level (inc + 1) pRPG
          | none =>
              let level := { level with children := addField idx pair level.children }
              rmake rTagVals rRPGs idx fuel level (inc + 1) pRPG
      else .ok (level, inc)
def rmakeEntries (rTagVals : List TagVal) (rRPGs : Groups Text) (idx : Column) (pair : TagVal) (rRptTags : Finset Text) :
    Nat → Level → Nat → TagVal → Except Fault (Level × Nat)
  | 0, _, _, _ => .error .fuel
  | fuel + 1, level, pos, npair =>
      if pos < rTagVals.length ∧ npair.1 ∈ rRptTags then do
        let level := level.bump pair.1
        let (placed, i) := placeEntry idx pair (level.counting pair.1) level.children
        let (inner, inc) ← rmake rTagVals rRPGs idx fuel ⟨childrenAt i placed, fun _ => 0⟩ pos (some rRptTags)
        let level := { level with children := placed.modify i (Ruv.setChildren inner.children) }
        let npair ← nextPair rTagVals inc npair
        rmakeEntries rTagVals rRPGs idx pair rRptTags fuel level inc npair
      else .ok (level, pos)
end

def enoughFuel (rTagVals : List TagVal) : Nat := 2 * rTagVals.length + 1

def rmakeRoot (root : List Ruv) (rTagVals : List TagVal) (rRPGs : Groups Text) (idx : Column) : Except Fault (List Ruv) :=
  (rmake rTagVals rRPGs idx (enoughFuel rTagVals) ⟨root, fun _ => 0⟩ 0 none).map fun made => made.1.children

def valueOf (leaves : List Ruv) : Text :=
  match leaves.head? with
  | some leaf => leaf.val 0
  | none => []

-- The tags the top-level loop consumes, in order: after a counter it goes on
-- where the loop over its entries stopped.
def topTags (rTagVals : List TagVal) (rRPGs : Groups Text) : Nat → Nat → List Text
  | 0, _ => []
  | fuel + 1, inc =>
      match readPair rTagVals inc with
      | .error _ => []
      | .ok pair =>
          pair.1 :: match rRPGs pair.1 with
            | none => topTags rTagVals rRPGs fuel (inc + 1)
            | some rRptTags =>
                match readPair rTagVals (inc + 1) with
                | .error _ => []
                | .ok npair =>
                    match rmakeEntries rTagVals rRPGs 0 pair rRptTags fuel ⟨[], fun _ => 0⟩ (inc + 1) npair with
                    | .error _ => []
                    | .ok made => topTags rTagVals rRPGs fuel made.2

end Libx.Viewer

import Libx.Lib.Counted
import Libx.Text
import Mathlib.Algebra.Group.Int.Defs
import Mathlib.Data.Finset.Insert

set_option autoImplicit false

namespace Libx.Trd

open Counted (Groups)

-- `outOfRange` is the undefined read behind the end of the token vector; the
-- other two are the exceptions of std::stoi. `fuel` only bounds the recursion
-- of the model and is shown never to be returned.
inductive Fault where
  | outOfRange (index : Nat)
  | invalidArgument (text : Text)
  | intOutOfRange (text : Text)
  | fuel
deriving DecidableEq, Repr

inductive MsgFix where
  | node (istag : Bool) (inttag : Int32) (val : Text) (children : List MsgFix)
deriving Repr

structure TagVal where
  firstAsInt : Int32
  second : Text
deriving DecidableEq, Repr

def isSpace (c : Char) : Bool := c ∈ [' ', '\t', '\n', '\r', '\x0b', '\x0c']

-- strtol behind std::stoi: blanks, a sign, then as many digits as there are.
def stoi (text : Text) : Except Fault Int32 :=
  let body := text.dropWhile isSpace
  let negative := body.head? = some '-'
  let unsigned := if negative ∨ body.head? = some '+' then body.tail else body
  let digits := unsigned.takeWhile Char.isDigit
  if digits = [] then .error (.invalidArgument text)
  else
    let magnitude : Int := Nat.ofDigitChars 10 digits 0
    let value := if negative then -magnitude else magnitude
    if -2 ^ 31 ≤ value ∧ value < 2 ^ 31 then .ok (Int32.ofInt value) else .error (.intOutOfRange text)

-- Without a '=' both substr calls see npos: the first takes the whole token and
-- the second starts at npos + 1, which wraps to 0.
def extractTagVal (rfixtoken : Text) : Except Fault TagVal :=
  let sep := rfixtoken.findIdx? (· = '=')
  let first := match sep with
    | some at_ => rfixtoken.take at_
    | none => rfixtoken
  let second := match sep with
    | some at_ => rfixtoken.drop (at_ + 1)
    | none => rfixtoken
  do
    let firstAsInt ← stoi first
    return ⟨firstAsInt, second⟩

-- extract_tag_val( npair, rfixtokens[pos] ): operator[] does not check.
def readToken (rfixtokens : List Text) (pos : Nat) : Except Fault TagVal :=
  match rfixtokens[pos]? with
  | none => .error (.outOfRange pos)
  | some token => extractTagVal token

-- The refresh of npair after an entry, which does check; behind the end npair
-- keeps its old value.
def nextPair (rfixtokens : List Text) (pos : Nat) (npair : TagVal) : Except Fault TagVal :=
  if pos < rfixtokens.length then readToken rfixtokens pos else .ok npair

-- The recursion of the source, with the node's child vector as the state.
-- Positions are naturals; the source returns them as int, which is the same for
-- every message of less than 2^31 tokens.
-- `msgFixEntries` is the inner while; its node is pushed with the children
-- the recursive call fills in.
mutual
def msgFixRmake (rfixtokens : List Text) (groups : Groups Int32) :
    Nat → List MsgFix → Nat → Option (Finset Int32) → Except Fault (List MsgFix × Nat)
  | 0, _, _, _ => .error .fuel
  | fuel + 1, rMsgFix, inc, pRptGroup =>
      if inc < rfixtokens.length then do
        let pair ← readToken rfixtokens inc
        if pRptGroup.any (pair.firstAsInt ∉ ·) then
          return (rMsgFix, inc)
        else
          let pRptGroup := pRptGroup.map (·.erase pair.firstAsInt)
          match groups pair.firstAsInt with
          | some rRptTags =>
              let pos := inc + 1
              let npair ← readToken rfixtokens pos
              if ¬(pos < rfixtokens.length ∧ npair.firstAsInt ∈ rRptTags) then
                msgFixRmake rfixtokens groups fuel rMsgFix (inc + 1) pRptGroup
              else do
                let (rMsgFix, inc) ← msgFixEntries rfixtokens groups pair rRptTags fuel rMsgFix pos npair
                msgFixRmake rfixtokens groups fuel rMsgFix inc pRptGroup
          | none =>
              let p := MsgFix.node true pair.firstAsInt pair.second []
              msgFixRmake rfixtokens groups fuel (rMsgFix ++ [p]) (inc + 1) pRptGroup
      else .ok (rMsgFix, inc)
def msgFixEntries (rfixtokens : List Text) (groups : Groups Int32) (pair : TagVal) (rRptTags : Finset Int32) :
    Nat → List MsgFix → Nat → TagVal → Except Fault (List MsgFix × Nat)
  | 0, _, _, _ => .error .fuel
  | fuel + 1, rMsgFix, pos, npair =>
      if pos < rfixtokens.length ∧ npair.firstAsInt ∈ rRptTags then do
        let (children, inc) ← msgFixRmake rfixtokens groups fuel [] pos (some rRptTags)
        let p := MsgFix.node false pair.firstAsInt pair.second children
        let npair ← nextPair rfixtokens inc npair
        msgFixEntries rfixtokens groups pair rRptTags fuel (rMsgFix ++ [p]) inc npair
      else .ok (rMsgFix, pos)
end

def enoughFuel (rfixtokens : List Text) : Nat := 2 * rfixtokens.length + 1

def msgFixRmakeRoot (rfixtokens : List Text) (groups : Groups Int32) : Except Fault (List MsgFix × Nat) :=
  msgFixRmake rfixtokens groups (enoughFuel rfixtokens) [] 0 none

-- boost::tokenizer cuts the message; it is a parameter here.
def make (tokenize : Text → Text → List Text) (rmsg : Text) (groups : Groups Int32) (sep : Text) : Except Fault MsgFix := do
  let (children, _) ← msgFixRmakeRoot (tokenize rmsg sep) groups
  return .node false 0 [] children

def getFix42RepeatingGroups : Groups Int32 := fun tag =>
  if tag = 33 then some {58, 354, 355}
  else if tag = 73 then some {11, 526, 78}
  else if tag = 78 then some {79, 467}
  else if tag = 146 then some {15, 22, 48, 55, 65, 106, 107, 146, 167, 200, 201, 202, 205, 206, 207, 223, 225, 231, 320,
    321, 322, 336, 348, 349, 350, 351, 460, 461, 541, 873, 874}
  else if tag = 232 then some {233, 234}
  else if tag = 386 then some {336}
  else if tag = 453 then some {448, 447, 452, 802}
  else if tag = 454 then some {455, 456}
  else if tag = 552 then some {54, 37, 1, 11, 12, 13, 15, 58, 66, 78, 118, 157, 159, 198, 355, 381, 453, 526, 528, 581}
  else if tag = 555 then some {600, 601, 602, 603, 607, 608, 609, 610, 611, 612, 613, 614, 615, 617, 618, 619, 620, 623,
    624, 564, 654, 604}
  else if tag = 604 then some {605, 606}
  else if tag = 802 then some {523, 803}
  else none

end Libx.Trd

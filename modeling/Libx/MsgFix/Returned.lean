import Libx.MsgFix.Reading

set_option autoImplicit false

namespace Libx.Trd

open Counted

-- MsgFix_rmake gives its position back as an int, which the caller assigns to
-- the size_t inc again: the low 32 bits, and from them the sign extended.
def returnInc (inc : Nat) : Int32 := .ofNat inc
def assignInc (r : Int32) : Nat := (r.toInt % 18446744073709551616).toNat

mutual
def msgFixRmakeInt (rfixtokens : List Text) (groups : Groups Int32) :
    Nat → List MsgFix → Nat → Option (Finset Int32) → Except Fault (List MsgFix × Int32)
  | 0, _, _, _ => .error .fuel
  | fuel + 1, rMsgFix, inc, pRptGroup =>
      if inc < rfixtokens.length then do
        let pair ← readToken rfixtokens inc
        if pRptGroup.any (pair.firstAsInt ∉ ·) then
          return (rMsgFix, returnInc inc)
        else
          let pRptGroup := pRptGroup.map (·.erase pair.firstAsInt)
          match groups pair.firstAsInt with
          | some rRptTags =>
              let pos := inc + 1
              let npair ← readToken rfixtokens pos
              if ¬(pos < rfixtokens.length ∧ npair.firstAsInt ∈ rRptTags) then
                msgFixRmakeInt rfixtokens groups fuel rMsgFix (inc + 1) pRptGroup
              else do
                let (rMsgFix, inc) ← msgFixEntriesInt rfixtokens groups pair rRptTags fuel rMsgFix pos npair
                msgFixRmakeInt rfixtokens groups fuel rMsgFix inc pRptGroup
          | none =>
              let p := MsgFix.node true pair.firstAsInt pair.second []
              msgFixRmakeInt rfixtokens groups fuel (rMsgFix ++ [p]) (inc + 1) pRptGroup
      else .ok (rMsgFix, returnInc inc)
def msgFixEntriesInt (rfixtokens : List Text) (groups : Groups Int32) (pair : TagVal) (rRptTags : Finset Int32) :
    Nat → List MsgFix → Nat → TagVal → Except Fault (List MsgFix × Nat)
  | 0, _, _, _ => .error .fuel
  | fuel + 1, rMsgFix, pos, npair =>
      if pos < rfixtokens.length ∧ npair.firstAsInt ∈ rRptTags then do
        let (children, r) ← msgFixRmakeInt rfixtokens groups fuel [] pos (some rRptTags)
        let inc := assignInc r
        let p := MsgFix.node false pair.firstAsInt pair.second children
        let npair ← nextPair rfixtokens inc npair
        msgFixEntriesInt rfixtokens groups pair rRptTags fuel (rMsgFix ++ [p]) inc npair
      else .ok (rMsgFix, pos)
end

theorem inc_survives (inc : Nat) (small : inc < 2147483648) : assignInc (returnInc inc) = inc := by
  have same : (returnInc inc).toInt = inc := Int32.toInt_ofNat_of_lt small
  rw [assignInc, same]
  omega

theorem rmake_inside (rfixtokens : List Text) (groups : Groups Int32) (fuel : Nat) :
    (∀ (rMsgFix : List MsgFix) (inc : Nat) (pRptGroup : Option (Finset Int32)) (made : List MsgFix × Nat),
      inc ≤ rfixtokens.length → msgFixRmake rfixtokens groups fuel rMsgFix inc pRptGroup = .ok made →
      made.2 ≤ rfixtokens.length) ∧
    (∀ (pair : TagVal) (rRptTags : Finset Int32) (rMsgFix : List MsgFix) (pos : Nat) (npair : TagVal) (made : List MsgFix × Nat),
      pos ≤ rfixtokens.length → msgFixEntries rfixtokens groups pair rRptTags fuel rMsgFix pos npair = .ok made →
      made.2 ≤ rfixtokens.length) :=
  rmake_keeps rfixtokens groups (fun _ inc => inc ≤ rfixtokens.length) (fun _ _ _ bound _ _ => bound) (fun _ _ bound _ => bound)
    (fun _ _ within => within) (fun _ _ _ _ _ _ inner => inner) fuel

theorem rmake_int_refines (rfixtokens : List Text) (groups : Groups Int32) (short : rfixtokens.length < 2147483648) (fuel : Nat) :
    (∀ (rMsgFix : List MsgFix) (inc : Nat) (pRptGroup : Option (Finset Int32)), inc ≤ rfixtokens.length →
      msgFixRmakeInt rfixtokens groups fuel rMsgFix inc pRptGroup =
        (msgFixRmake rfixtokens groups fuel rMsgFix inc pRptGroup).map fun made => (made.1, returnInc made.2)) ∧
    (∀ (pair : TagVal) (rRptTags : Finset Int32) (rMsgFix : List MsgFix) (pos : Nat) (npair : TagVal), pos ≤ rfixtokens.length →
      msgFixEntriesInt rfixtokens groups pair rRptTags fuel rMsgFix pos npair =
        msgFixEntries rfixtokens groups pair rRptTags fuel rMsgFix pos npair) := by
  induction fuel with
  | zero => exact ⟨fun _ _ _ _ => rfl, fun _ _ _ _ _ _ => rfl⟩
  | succ fuel ih =>
      obtain ⟨ihItems, ihEntries⟩ := ih
      constructor
      · intro rMsgFix inc pRptGroup within
        rw [msgFixRmakeInt, msgFixRmake]
        by_cases bound : inc < rfixtokens.length
        · rw [if_pos bound, if_pos bound]
          cases readToken rfixtokens inc with
          | error fault => rfl
          | ok pair =>
              simp only [Fallible.ok_bind]
              by_cases blocked : pRptGroup.any (pair.firstAsInt ∉ ·) = true
              · rw [if_pos blocked, if_pos blocked]
                rfl
              · rw [if_neg blocked, if_neg blocked]
                cases groups pair.firstAsInt with
                | none => exact ihItems _ _ _ bound
                | some rRptTags =>
                    simp only
                    cases readToken rfixtokens (inc + 1) with
                    | error fault => rfl
                    | ok npair =>
                        simp only [Fallible.ok_bind]
                        by_cases foreign : ¬(inc + 1 < rfixtokens.length ∧ npair.firstAsInt ∈ rRptTags)
                        · rw [if_pos foreign, if_pos foreign]
                          exact ihItems _ _ _ bound
                        · rw [if_neg foreign, if_neg foreign, ihEntries _ _ _ _ _ bound]
                          cases entries : msgFixEntries rfixtokens groups pair rRptTags fuel rMsgFix (inc + 1) npair with
                          | error fault => rfl
                          | ok between =>
                              exact ihItems _ _ _ ((rmake_inside rfixtokens groups fuel).2 _ _ _ _ _ between bound entries)
        · rw [if_neg bound, if_neg bound]
          rfl
      · intro pair rRptTags rMsgFix pos npair within
        rw [msgFixEntriesInt, msgFixEntries]
        by_cases inside : pos < rfixtokens.length ∧ npair.firstAsInt ∈ rRptTags
        · rw [if_pos inside, if_pos inside, ihItems _ _ _ within]
          cases items : msgFixRmake rfixtokens groups fuel [] pos (some rRptTags) with
          | error fault => rfl
          | ok entry =>
              have bound := (rmake_inside rfixtokens groups fuel).1 _ _ _ entry within items
              simp only [Fallible.ok_map, Fallible.ok_bind, inc_survives entry.2 (by omega)]
              cases nextPair rfixtokens entry.2 npair with
              | error fault => rfl
              | ok next => exact ihEntries _ _ _ _ _ bound
        · rw [if_neg inside, if_neg inside]

theorem rmake_int_refines_parties :
    let parties : Groups Int32 := fun tag => if tag = 453 then some {448} else none
    msgFixRmakeInt ["453=2".toList, "448=A".toList, "448=B".toList, "10=1".toList] parties 9 [] 0 none =
      .ok ([.node false 453 "2".toList [.node true 448 "A".toList []], .node false 453 "2".toList [.node true 448 "B".toList []],
        .node true 10 "1".toList []], 4) := by
  intro parties
  rw [(rmake_int_refines ["453=2".toList, "448=A".toList, "448=B".toList, "10=1".toList] parties (by decide) 9).1 [] 0 none (by decide)]
  rfl

end Libx.Trd

import Libx.Lib.Brackets
import Libx.Ruv.Level

set_option autoImplicit false

namespace Libx.Viewer

open Counted (Ahead)
open Brackets
open Sequences (sift)

abbrev StopTags := Text → Option Text

def startStops (table : List (Text × Text)) : StopTags := fun tag => (table.find? fun row => row.1 = tag).map Prod.snd

def sStartStopGroups : List (Text × Text) :=
  [("SOH".toList, "EOH".toList), ("SCONN".toList, "ECONN".toList), ("SQTE".toList, "EQTE".toList),
    ("SFIXED".toList, "EFIXED".toList), ("SFLOAT".toList, "EFLOAT".toList), ("STRD".toList, "ETRD".toList),
    ("SPART".toList, "EPART".toList), ("SSMKT".toList, "ESMKT".toList), ("SBMKT".toList, "EBMKT".toList),
    ("SSCNF".toList, "ESCNF".toList), ("SBCNF".toList, "EBCNF".toList)]

-- `ssmakeEntries` is the inner while.
mutual
def ssmake (rTagVals : List TagVal) (rRPGs : StopTags) (idx : Column) :
    Nat → Level → Nat → Option Text → Except Fault (Level × Nat)
  | 0, _, _, _ => .error .fuel
  | fuel + 1, level, inc, pRPG_STOP =>
      if inc < rTagVals.length then do
        let pair ← readPair rTagVals inc
        if pRPG_STOP = some pair.1 then
          return (level, inc)
        else
          match rRPGs pair.1 with
          | some stop =>
              let pos := inc + 1
              let npair ← readPair rTagVals pos
              if pos < rTagVals.length ∧ npair.1 ≠ stop then do
                let (level, inc) ← ssmakeEntries rTagVals rRPGs idx pair stop fuel level pos npair
                ssmake rTagVals rRPGs idx fuel level inc pRPG_STOP
              else ssmake rTagVals rRPGs idx fuel level (inc + 1) pRPG_STOP
          | none =>
              let level := { level with children := addField idx pair level.children }
              ssmake rTagVals rRPGs idx fuel level (inc + 1) pRPG_STOP
      else .ok (level, inc)
def ssmakeEntries (rTagVals : List TagVal) (rRPGs : StopTags) (idx : Column) (pair : TagVal) (stop : Text) :
    Nat → Level → Nat → TagVal → Except Fault (Level × Nat)
  | 0, _, _, _ => .error .fuel
  | fuel + 1, level, pos, npair =>
      if pos < rTagVals.length ∧ npair.1 ≠ stop then do
        let level := level.bump pair.1
        let (placed, i) := placeEntry idx pair (level.counting pair.1) level.children
        let (inner, inc) ← ssmake rTagVals rRPGs idx fuel ⟨childrenAt i placed, fun _ => 0⟩ pos (some stop)
        let level := { level with children := placed.modify i (Ruv.setChildren inner.children) }
        let npair ← nextPair rTagVals inc npair
        ssmakeEntries rTagVals rRPGs idx pair stop fuel level inc npair
      else .ok (level, pos)
end

def ssmakeRoot (root : List Ruv) (rTagVals : List TagVal) (rRPGs : StopTags) (idx : Column) : Except Fault (List Ruv) :=
  (ssmake rTagVals rRPGs idx (enoughFuel rTagVals) ⟨root, fun _ => 0⟩ 0 none).map fun made => made.1.children

mutual
def Ruv.preorder (column : Column) : Ruv → List TagVal
  | .node tag val children => (tag, val column) :: preorder column children
def preorder (column : Column) : List Ruv → List TagVal
  | [] => []
  | p :: rest => p.preorder column ++ preorder column rest
end

def nodes : Forest Text Text → List Ruv
  | .nil => []
  | .node token children rest => (Ruv.new token).setChildren (nodes children) :: nodes rest

theorem start_stops_row (table : List (Text × Text)) (start stop : Text) (row : startStops table start = some stop) :
    (start, stop) ∈ table := by
  obtain ⟨found, search, rfl⟩ := Option.map_eq_some_iff.mp row
  have tag : found.1 = start := by simpa using List.find?_some search
  rw [← tag]
  exact List.mem_of_find?_eq_some search

theorem start_stops_plain (table : List (Text × Text)) (tag : Text) (noStart : tag ∉ table.map Prod.fst)
    (noStop : tag ∉ table.map Prod.snd) : startStops table tag = none ∧ ∀ start, startStops table start ≠ some tag := by
  constructor
  · cases kind : startStops table tag with
    | none => rfl
    | some stop => exact absurd (List.mem_map_of_mem (start_stops_row table tag stop kind)) noStart
  · intro start same
    exact noStop (List.mem_map_of_mem (start_stops_row table start tag same))

theorem start_stops_distinct (table : List (Text × Text)) (different : (table.map Prod.fst ++ table.map Prod.snd).Nodup) :
    Distinct (startStops table) := by
  obtain ⟨_, stops, apart⟩ := List.nodup_append.mp different
  constructor
  · intro first second closing one two
    have same := List.inj_on_of_nodup_map stops (start_stops_row table first closing one) (start_stops_row table second closing two) rfl
    exact congrArg Prod.fst same
  · intro start closing row
    cases kind : startStops table closing with
    | none => rfl
    | some other =>
        have key := List.mem_map_of_mem (f := Prod.fst) (start_stops_row table closing other kind)
        have value := List.mem_map_of_mem (f := Prod.snd) (start_stops_row table start closing row)
        exact absurd rfl (apart closing key closing value)

theorem groups_distinct : Distinct (startStops sStartStopGroups) := start_stops_distinct sStartStopGroups (by decide)

theorem nodes_injective (first second : Forest Text Text) (same : nodes first = nodes second) : first = second := by
  induction first generalizing second with
  | nil =>
      cases second with
      | nil => rfl
      | node token children rest => exact absurd same (by simp [nodes])
  | node token children rest ihChildren ih =>
      cases second with
      | nil => exact absurd same (by simp [nodes])
      | node other otherChildren otherRest =>
          simp only [nodes, Ruv.new, Ruv.setChildren, List.cons.injEq, Ruv.node.injEq] at same
          obtain ⟨⟨tag, val, inner⟩, behind⟩ := same
          have value : token.2 = other.2 := by simpa using congrFun val 0
          rw [Prod.ext tag value, ihChildren otherChildren inner, ih otherRest behind]

theorem nodes_preorder (forest : Forest Text Text) : preorder 0 (nodes forest) = forest.preorder := by
  induction forest with
  | nil => rfl
  | node token children rest ihChildren ih =>
      simp [nodes, preorder, Ruv.new, Ruv.setChildren, Ruv.preorder, Forest.preorder, ihChildren, ih]

section Turns

variable (rTagVals : List TagVal) (rRPGs : StopTags)

theorem read_ahead (inc : Nat) (token : TagVal) (tail : List TagVal) (ahead : Ahead (pairSource rTagVals) inc (token :: tail)) :
    inc < rTagVals.length ∧ readPair rTagVals inc = .ok token ∧ Ahead (pairSource rTagVals) (inc + 1) tail := ahead

theorem ssmake_done (idx : Column) (fuel : Nat) (level : Level) (stop : Option Text) :
    ssmake rTagVals rRPGs idx (fuel + 1) level rTagVals.length stop = .ok (level, rTagVals.length) := by
  rw [ssmake, if_neg (Nat.lt_irrefl _)]

theorem ssmake_closed (idx : Column) (fuel : Nat) (level : Level) (inc : Nat) (token : TagVal) (tail : List TagVal)
    (ahead : Ahead (pairSource rTagVals) inc (token :: tail)) :
    ssmake rTagVals rRPGs idx (fuel + 1) level inc (some token.1) = .ok (level, inc) := by
  obtain ⟨bound, read, _⟩ := read_ahead rTagVals inc token tail ahead
  rw [ssmake, if_pos bound, read, Fallible.ok_bind, if_pos rfl, Fallible.pure_eq_ok]

theorem ssmake_leaf (idx : Column) (fuel : Nat) (level : Level) (inc : Nat) (stop : Option Text) (token : TagVal)
    (tail : List TagVal) (ahead : Ahead (pairSource rTagVals) inc (token :: tail)) (other : stop ≠ some token.1)
    (plain : rRPGs token.1 = none) :
    ssmake rTagVals rRPGs idx (fuel + 1) level inc stop =
      ssmake rTagVals rRPGs idx fuel { level with children := addField idx token level.children } (inc + 1) stop := by
  obtain ⟨bound, read, _⟩ := read_ahead rTagVals inc token tail ahead
  rw [ssmake, if_pos bound, read, Fallible.ok_bind, if_neg other]
  simp only [plain]

theorem ssmake_start (idx : Column) (fuel : Nat) (level : Level) (inc : Nat) (stop : Option Text) (token next : TagVal)
    (closing : Text) (tail : List TagVal) (ahead : Ahead (pairSource rTagVals) inc (token :: next :: tail))
    (other : stop ≠ some token.1) (opening : rRPGs token.1 = some closing) :
    ssmake rTagVals rRPGs idx (fuel + 1) level inc stop =
      if next.1 ≠ closing then
        ssmakeEntries rTagVals rRPGs idx token closing fuel level (inc + 1) next >>= fun made =>
          ssmake rTagVals rRPGs idx fuel made.1 made.2 stop
      else ssmake rTagVals rRPGs idx fuel level (inc + 1) stop := by
  obtain ⟨bound, read, behind⟩ := read_ahead rTagVals inc token (next :: tail) ahead
  obtain ⟨nextBound, nextRead, _⟩ := read_ahead rTagVals (inc + 1) next tail behind
  rw [ssmake, if_pos bound, read, Fallible.ok_bind, if_neg other]
  simp only [opening, nextRead, Fallible.ok_bind, nextBound, true_and]

-- The inner call ends in front of the stop tag or at the end of the pairs, so
-- the loop over the entries makes one turn.
theorem ssmake_entries_once (fuel : Nat) (level inner : Level) (inc after : Nat) (token next : TagVal) (closing : Text)
    (tail middle : List TagVal) (ahead : Ahead (pairSource rTagVals) (inc + 1) (next :: tail)) (filled : next.1 ≠ closing)
    (made : ssmake rTagVals rRPGs 0 (fuel + 1) ⟨[], fun _ => 0⟩ (inc + 1) (some closing) = .ok (inner, after))
    (behind : Ahead (pairSource rTagVals) after middle) (left : ∀ last, middle.head? = some last → some closing = some last.1) :
    ∃ counting, ssmakeEntries rTagVals rRPGs 0 token closing (fuel + 2) level (inc + 1) next =
      .ok (⟨level.children ++ [(Ruv.new token).setChildren inner.children], counting⟩, after) := by
  obtain ⟨bound, _, _⟩ := read_ahead rTagVals (inc + 1) next tail ahead
  refine ⟨(level.bump token.1).counting, ?_⟩
  have first : childrenAt level.children.length (level.children ++ [Ruv.new token]) = [] := by
    simp [childrenAt, Ruv.new, Ruv.children]
  have last : (level.children ++ [Ruv.new token]).modify level.children.length (Ruv.setChildren inner.children) =
      level.children ++ [(Ruv.new token).setChildren inner.children] :=
    modify_middle level.children [] (Ruv.new token) (Ruv.setChildren inner.children)
  have placed : placeEntry 0 token ((level.bump token.1).counting token.1) (level.bump token.1).children =
      (level.children ++ [Ruv.new token], level.children.length) := rfl
  rw [ssmakeEntries, if_pos ⟨bound, filled⟩]
  simp only [placed, first, made, Fallible.ok_bind, last]
  cases middle with
  | nil =>
      have finished : after = rTagVals.length := behind
      rw [nextPair, if_neg (by omega), Fallible.ok_bind, ssmakeEntries, if_neg (by omega)]
  | cons stop rest =>
      obtain ⟨afterBound, afterRead, _⟩ := read_ahead rTagVals after stop rest behind
      have same := Option.some.inj (left stop rfl)
      rw [nextPair, if_pos afterBound, afterRead, Fallible.ok_bind, ssmakeEntries, if_neg (fun both => both.2 same.symm)]

-- The source function makes what the bracket reading of the pairs says;
-- induction on the reading, for every level that is open and every suffix.
theorem ssmake_reads (stop : Option Text) (tokens rest : List TagVal) (forest : Forest Text Text)
    (reads : Reads rRPGs stop tokens forest rest) (fuel : Nat) (level : Level) (inc : Nat)
    (ahead : Ahead (pairSource rTagVals) inc tokens) (enough : 2 * tokens.length + 1 ≤ fuel) :
    ∃ made after, ssmake rTagVals rRPGs 0 fuel level inc stop = .ok (made, after) ∧
      made.children = level.children ++ nodes forest ∧ Ahead (pairSource rTagVals) after rest := by
  induction reads generalizing fuel level inc with
  | done stop =>
      obtain ⟨fuel, rfl⟩ : ∃ less, fuel = less + 1 := ⟨fuel - 1, by omega⟩
      have finished : inc = rTagVals.length := ahead
      rw [finished]
      exact ⟨level, rTagVals.length, ssmake_done rTagVals rRPGs 0 fuel level stop, by simp [nodes], rfl⟩
  | closed token tail =>
      obtain ⟨fuel, rfl⟩ : ∃ less, fuel = less + 1 := ⟨fuel - 1, by omega⟩
      exact ⟨level, inc, ssmake_closed rTagVals rRPGs 0 fuel level inc token tail ahead, by simp [nodes], ahead⟩
  | leaf stop token tail rest forest other plain later ih =>
      obtain ⟨fuel, rfl⟩ : ∃ less, fuel = less + 1 := ⟨fuel - 1, by omega⟩
      simp only [List.length_cons] at enough
      obtain ⟨made, after, run, children, left⟩ :=
        ih fuel { level with children := addField 0 token level.children } (inc + 1) ahead.2.2 (by omega)
      refine ⟨made, after, ?_, ?_, left⟩
      · rw [ssmake_leaf rTagVals rRPGs 0 fuel level inc stop token tail ahead other plain, run]
      · rw [children]
        simp [addField, nodes, Ruv.new, Ruv.setChildren]
  | skip stop token next tail rest forest other empty later ih =>
      obtain ⟨fuel, rfl⟩ : ∃ less, fuel = less + 1 := ⟨fuel - 1, by omega⟩
      simp only [List.length_cons] at enough ih
      obtain ⟨made, after, run, children, left⟩ := ih fuel level (inc + 1) ahead.2.2 (by omega)
      refine ⟨made, after, ?_, children, left⟩
      rw [ssmake_start rTagVals rRPGs 0 fuel level inc stop token next next.1 tail ahead other empty, if_neg (by simp), run]
  | group stop token next closing tail middle rest children forest other opening filled inside later ihInside ih =>
      simp only [List.length_cons] at enough ihInside
      obtain ⟨fuel, rfl⟩ : ∃ less, fuel = less + 4 := ⟨fuel - 4, by omega⟩
      obtain ⟨inner, position, innerRun, innerChildren, innerLeft⟩ :=
        ihInside (fuel + 2) ⟨[], fun _ => 0⟩ (inc + 1) ahead.2.2 (by omega)
      have spent := reads_spends rRPGs (some closing) next tail middle children (fun same => filled (Option.some.inj same).symm) inside
      obtain ⟨counting, entries⟩ := ssmake_entries_once rTagVals rRPGs (fuel + 1) level inner inc position token next closing tail
        middle ahead.2.2 filled innerRun innerLeft (reads_left rRPGs (some closing) (next :: tail) middle children inside)
      obtain ⟨made, after, run, made_children, left⟩ :=
        ih (fuel + 3) ⟨level.children ++ [(Ruv.new token).setChildren inner.children], counting⟩ position innerLeft (by omega)
      refine ⟨made, after, ?_, ?_, left⟩
      · rw [ssmake_start rTagVals rRPGs 0 (fuel + 3) level inc stop token next closing tail ahead other opening, if_pos filled,
          entries, Fallible.ok_bind, run]
      · rw [made_children, innerChildren]
        simp [nodes]

end Turns

theorem root_reads (tokens : List TagVal) (rRPGs : StopTags) (forest : Forest Text Text) (rest : List TagVal)
    (reads : Reads rRPGs none tokens forest rest) : ssmakeRoot [] tokens rRPGs 0 = .ok (nodes forest) := by
  obtain ⟨made, after, run, children, _⟩ := ssmake_reads tokens rRPGs none tokens rest forest reads (enoughFuel tokens)
    ⟨[], fun _ => 0⟩ 0 (pairs_ahead tokens 0 tokens rfl (Nat.zero_le _)) le_rfl
  rw [ssmakeRoot, run, Fallible.ok_map, children, List.nil_append]

theorem ssmake_accounts (tokens : List TagVal) (rRPGs : StopTags)
    (plain : ∀ token, tokens.getLast? = some token → rRPGs token.1 = none) :
    ∃ tree, ssmakeRoot [] tokens rRPGs 0 = .ok tree ∧ preorder 0 tree = sift (closesAtOnce rRPGs) tokens := by
  obtain ⟨forest, rest, reads⟩ := reads_exists rRPGs none tokens plain
  refine ⟨nodes forest, root_reads tokens rRPGs forest rest reads, ?_⟩
  have kept := reads_preorder rRPGs none tokens rest forest reads
  rw [reads_all rRPGs tokens rest forest reads] at kept
  rw [nodes_preorder, ← kept]
  exact (List.append_nil forest.preorder).symm

theorem ssmake_accounts_unbalanced :
    ∃ tree, ssmakeRoot [] [(['E'], ['0']), (['S'], ['1']), (['E'], ['2']), (['S'], ['3']), (['a'], ['4'])]
      (startStops [(['S'], ['E'])]) 0 = .ok tree ∧
        preorder 0 tree = [(['E'], ['0']), (['E'], ['2']), (['S'], ['3']), (['a'], ['4'])] :=
  ssmake_accounts [(['E'], ['0']), (['S'], ['1']), (['E'], ['2']), (['S'], ['3']), (['a'], ['4'])] (startStops [(['S'], ['E'])])
    (by decide)

theorem ssmake_brackets_iff (message : Message Text Text) (rRPGs : StopTags) (distinct : Distinct rRPGs)
    (nested : message.WellNested rRPGs) :
    ssmakeRoot [] message.render rRPGs 0 = .ok (nodes message.expected) ↔ message.Apart none := by
  constructor
  · intro run
    obtain ⟨forest, rest, reads⟩ := reads_exists rRPGs none message.render (render_last_plain rRPGs distinct message nested)
    have same : nodes forest = nodes message.expected :=
      Except.ok.inj ((root_reads message.render rRPGs forest rest reads).symm.trans run)
    rw [reads_all rRPGs message.render rest forest reads, nodes_injective forest message.expected same] at reads
    exact (reads_message_iff rRPGs distinct message nested).mp reads
  · intro apart
    exact root_reads message.render rRPGs message.expected [] ((reads_message_iff rRPGs distinct message nested).mpr apart)

def groupInGroup (outer inner : Text × Text) : Message Text Text :=
  .group (outer.1, []) (.field (['a'], []) (.group (inner.1, []) (.field (['b'], []) .nil) (inner.2, [])
    (.field (['c'], []) .nil))) (outer.2, []) .nil

theorem group_in_group_nested (outer inner : Text × Text)
    (outerRow : startStops sStartStopGroups outer.1 = some outer.2)
    (innerRow : startStops sStartStopGroups inner.1 = some inner.2) :
    (groupInGroup outer inner).WellNested (startStops sStartStopGroups) := by
  have a := start_stops_plain sStartStopGroups ['a'] (by decide) (by decide)
  have b := start_stops_plain sStartStopGroups ['b'] (by decide) (by decide)
  have c := start_stops_plain sStartStopGroups ['c'] (by decide) (by decide)
  refine ⟨outerRow, by simp [Message.render], ⟨a.1, a.2, ?_⟩, trivial⟩
  exact ⟨innerRow, by simp [Message.render], ⟨b.1, b.2, trivial⟩, c.1, c.2, trivial⟩

theorem ssmake_brackets_quote_in_part :
    ssmakeRoot [] (groupInGroup ("SPART".toList, "EPART".toList) ("SQTE".toList, "EQTE".toList)).render
      (startStops sStartStopGroups) 0 =
        .ok (nodes (groupInGroup ("SPART".toList, "EPART".toList) ("SQTE".toList, "EQTE".toList)).expected) := by
  have nested := group_in_group_nested ("SPART".toList, "EPART".toList) ("SQTE".toList, "EQTE".toList) (by decide) (by decide)
  refine (ssmake_brackets_iff _ (startStops sStartStopGroups) groups_distinct nested).mpr ?_
  exact ⟨by simp, ⟨by decide, trivial, trivial⟩, trivial⟩

theorem ssmake_part_in_part :
    Distinct (startStops sStartStopGroups) ∧
      (groupInGroup ("SPART".toList, "EPART".toList) ("SPART".toList, "EPART".toList)).WellNested (startStops sStartStopGroups) ∧
      ssmakeRoot [] (groupInGroup ("SPART".toList, "EPART".toList) ("SPART".toList, "EPART".toList)).render
        (startStops sStartStopGroups) 0 ≠
          .ok (nodes (groupInGroup ("SPART".toList, "EPART".toList) ("SPART".toList, "EPART".toList)).expected) := by
  refine ⟨groups_distinct, group_in_group_nested _ _ (by decide) (by decide), fun run => ?_⟩
  have sizes := congrArg (fun made => (made.toOption.map List.length)) run
  exact absurd sizes (by decide +kernel)

end Libx.Viewer

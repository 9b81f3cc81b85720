import Libx.Ruv.Brackets
import Libx.Ruv.SelfCompare
import Libx.Ruv.Frame
import Mathlib.Algebra.GroupWithZero.Nat

set_option autoImplicit false

namespace Libx.Viewer

open Brackets (Reads reads_exists reads_left reads_spends)
open Counted (Ahead)

section Turns

variable (rTagVals : List TagVal) (rRPGs : StopTags) (idx : Column)

def groupPlace (level : Level) (token : TagVal) : List Ruv × Nat :=
  placeEntry idx token ((level.bump token.1).counting token.1) level.children

theorem ssmake_entries_turn (fuel : Nat) (level inner : Level) (inc after : Nat) (token next : TagVal) (closing : Text)
    (tail middle : List TagVal) (ahead : Ahead (pairSource rTagVals) (inc + 1) (next :: tail)) (filled : next.1 ≠ closing)
    (made : ssmake rTagVals rRPGs idx (fuel + 1)
      ⟨childrenAt (groupPlace idx level token).2 (groupPlace idx level token).1, fun _ => 0⟩ (inc + 1) (some closing) =
        .ok (inner, after))
    (behind : Ahead (pairSource rTagVals) after middle) (left : ∀ last, middle.head? = some last → some closing = some last.1) :
    ssmakeEntries rTagVals rRPGs idx token closing (fuel + 2) level (inc + 1) next =
      .ok (⟨(groupPlace idx level token).1.modify (groupPlace idx level token).2 (Ruv.setChildren inner.children),
        (level.bump token.1).counting⟩, after) := by
  obtain ⟨bound, _, _⟩ := read_ahead rTagVals (inc + 1) next tail ahead
  have place : placeEntry idx token ((level.bump token.1).counting token.1) (level.bump token.1).children =
      groupPlace idx level token := rfl
  rw [ssmakeEntries, if_pos ⟨bound, filled⟩]
  simp only [place, made, Fallible.ok_bind]
  cases middle with
  | nil =>
      have finished : after = rTagVals.length := behind
      rw [nextPair, if_neg (by omega), Fallible.ok_bind, ssmakeEntries, if_neg (by omega)]
  | cons stop rest =>
      obtain ⟨afterBound, afterRead, _⟩ := read_ahead rTagVals after stop rest behind
      have same := Option.some.inj (left stop rfl)
      rw [nextPair, if_pos afterBound, afterRead, Fallible.ok_bind, ssmakeEntries, if_neg (fun both => both.2 same.symm)]

-- Into whatever children and column the pairs are read, the source function
-- ends where their reading ends; induction on the reading.
theorem ssmake_extends (stop : Option Text) (tokens rest : List TagVal) (forest : Brackets.Forest Text Text)
    (reads : Reads rRPGs stop tokens forest rest) (fuel : Nat) (level : Level) (inc : Nat)
    (ahead : Ahead (pairSource rTagVals) inc tokens) (enough : 2 * tokens.length + 1 ≤ fuel) :
    ∃ made after, ssmake rTagVals rRPGs idx fuel level inc stop = .ok (made, after) ∧
      Extends idx level.children made.children ∧ Ahead (pairSource rTagVals) after rest := by
  induction reads generalizing fuel level inc with
  | done stop =>
      obtain ⟨fuel, rfl⟩ : ∃ less, fuel = less + 1 := ⟨fuel - 1, by omega⟩
      have finished : inc = rTagVals.length := ahead
      rw [finished]
      exact ⟨level, rTagVals.length, ssmake_done rTagVals rRPGs idx fuel level stop, extends_refl idx _, rfl⟩
  | closed token tail =>
      obtain ⟨fuel, rfl⟩ : ∃ less, fuel = less + 1 := ⟨fuel - 1, by omega⟩
      exact ⟨level, inc, ssmake_closed rTagVals rRPGs idx fuel level inc token tail ahead, extends_refl idx _, ahead⟩
  | leaf stop token tail rest forest other plain later ih =>
      obtain ⟨fuel, rfl⟩ : ∃ less, fuel = less + 1 := ⟨fuel - 1, by omega⟩
      simp only [List.length_cons] at enough
      obtain ⟨made, after, run, more, left⟩ :=
        ih fuel { level with children := addField idx token level.children } (inc + 1) ahead.2.2 (by omega)
      refine ⟨made, after, ?_, extends_trans idx _ _ _ (add_field_extends idx token level.children) more, left⟩
      rw [ssmake_leaf rTagVals rRPGs idx fuel level inc stop token tail ahead other plain, run]
  | skip stop token next tail rest forest other empty later ih =>
      obtain ⟨fuel, rfl⟩ : ∃ less, fuel = less + 1 := ⟨fuel - 1, by omega⟩
      simp only [List.length_cons] at enough ih
      obtain ⟨made, after, run, more, left⟩ := ih fuel level (inc + 1) ahead.2.2 (by omega)
      refine ⟨made, after, ?_, more, left⟩
      rw [ssmake_start rTagVals rRPGs idx fuel level inc stop token next next.1 tail ahead other empty, if_neg (by simp), run]
  | group stop token next closing tail middle rest children forest other opening filled inside later ihInside ih =>
      simp only [List.length_cons] at enough ihInside
      obtain ⟨fuel, rfl⟩ : ∃ less, fuel = less + 4 := ⟨fuel - 4, by omega⟩
      obtain ⟨inner, position, innerRun, innerMore, innerLeft⟩ := ihInside (fuel + 2)
        ⟨childrenAt (groupPlace idx level token).2 (groupPlace idx level token).1, fun _ => 0⟩ (inc + 1) ahead.2.2 (by omega)
      have spent := reads_spends rRPGs (some closing) next tail middle children (fun same => filled (Option.some.inj same).symm) inside
      have entries := ssmake_entries_turn rTagVals rRPGs idx (fuel + 1) level inner inc position token next closing tail
        middle ahead.2.2 filled innerRun innerLeft (reads_left rRPGs (some closing) (next :: tail) middle children inside)
      have put := place_extends idx token ((level.bump token.1).counting token.1) level.children
      have filledIn := set_children_extends idx (groupPlace idx level token).2 (groupPlace idx level token).1 _ innerMore
      obtain ⟨made, after, run, more, left⟩ := ih (fuel + 3)
        ⟨(groupPlace idx level token).1.modify (groupPlace idx level token).2 (Ruv.setChildren inner.children),
          (level.bump token.1).counting⟩ position innerLeft (by omega)
      refine ⟨made, after, ?_, extends_trans idx _ _ _ (extends_trans idx _ _ _ put filledIn) more, left⟩
      rw [ssmake_start rTagVals rRPGs idx (fuel + 3) level inc stop token next closing tail ahead other opening, if_pos filled,
        entries, Fallible.ok_bind, run]

end Turns

theorem ssmake_column_kept (root : List Ruv) (tokens : List TagVal) (rRPGs : StopTags) (idx : Column)
    (plain : ∀ token, tokens.getLast? = some token → rRPGs token.1 = none) :
    ∃ both, ssmakeRoot root tokens rRPGs idx = .ok both ∧ Extends idx root both := by
  obtain ⟨forest, rest, reads⟩ := reads_exists rRPGs none tokens plain
  obtain ⟨made, after, run, more, _⟩ := ssmake_extends tokens rRPGs idx none tokens rest forest reads (enoughFuel tokens)
    ⟨root, fun _ => 0⟩ 0 (pairs_ahead tokens 0 tokens rfl (Nat.zero_le _)) le_rfl
  exact ⟨made.children, by rw [ssmakeRoot, run, Fallible.ok_map], more⟩

theorem ssmake_column_kept_parts :
    let leaf : Ruv := Ruv.new (['a'], ['1'])
    let root := [(Ruv.new (['S'], [])).setChildren [leaf], Ruv.new (['E'], []), leaf]
    ∃ both, ssmakeRoot root [(['S'], []), (['a'], ['2']), (['E'], []), (['S'], []), (['b'], ['3']), (['E'], [])]
      (startStops [(['S'], ['E'])]) 1 = .ok both ∧ Extends 1 root both :=
  ssmake_column_kept _ [(['S'], []), (['a'], ['2']), (['E'], []), (['S'], []), (['b'], ['3']), (['E'], [])]
    (startStops [(['S'], ['E'])]) 1 (by decide)

section Columns

local instance columnsAgain : NeZero 3 := ⟨by decide⟩

mutual
def Ruv.again (rRPGs : StopTags) (idx : Column) : Ruv → Ruv
  | .node tag val children => .node tag (if rRPGs tag = none then Function.update val idx (val 0) else val) (again rRPGs idx children)
def again (rRPGs : StopTags) (idx : Column) : List Ruv → List Ruv
  | [] => []
  | p :: rest => p.again rRPGs idx :: again rRPGs idx rest
end

def lastValue (tag : Text) (value : Text) (nodes : List Ruv) : Text :=
  nodes.foldl (fun value p => if p.tag = tag then p.val 0 else value) value

-- What the second reading leaves: on every level the first leaf of a tag has the
-- value of the last one, and the others are not touched.
mutual
def Ruv.reread (rRPGs : StopTags) (idx : Column) (before : List Text) (behind : List Ruv) : Ruv → Ruv
  | .node tag val children =>
      .node tag (if rRPGs tag = none ∧ tag ∉ before then Function.update val idx (lastValue tag (val 0) behind) else val)
        (reread rRPGs idx [] children)
def reread (rRPGs : StopTags) (idx : Column) (before : List Text) : List Ruv → List Ruv
  | [] => []
  | p :: rest => p.reread rRPGs idx before rest :: reread rRPGs idx (p.tag :: before) rest
end

mutual
def Ruv.EmptyRepeats (rRPGs : StopTags) : Ruv → Prop
  | .node _ _ children => EmptyRepeats rRPGs children
def EmptyRepeats (rRPGs : StopTags) : List Ruv → Prop
  | [] => True
  | p :: rest =>
      (rRPGs p.tag = none → p.tag ∈ rest.map Ruv.tag → ∀ q ∈ p :: rest, q.tag = p.tag → q.val 0 = []) ∧
        p.EmptyRepeats rRPGs ∧ EmptyRepeats rRPGs rest
end

theorem last_value_absent (tag value : Text) (nodes : List Ruv) (absent : tag ∉ nodes.map Ruv.tag) : lastValue tag value nodes = value := by
  induction nodes with
  | nil => rfl
  | cons p nodes ih =>
      obtain ⟨other, behind⟩ := not_or.mp (mt List.mem_cons.mpr absent)
      rw [lastValue, List.foldl_cons, if_neg (Ne.symm other)]
      exact ih behind

theorem last_value_empty (tag value : Text) (nodes : List Ruv) (present : tag ∈ nodes.map Ruv.tag)
    (empty : ∀ p ∈ nodes, p.tag = tag → p.val 0 = []) : lastValue tag value nodes = [] := by
  induction nodes generalizing value with
  | nil => exact absurd present List.not_mem_nil
  | cons p nodes ih =>
      have behind : ∀ q ∈ nodes, q.tag = tag → q.val 0 = [] := fun q member => empty q (List.mem_cons_of_mem p member)
      rw [lastValue, List.foldl_cons]
      by_cases more : tag ∈ nodes.map Ruv.tag
      · exact ih _ more behind
      · have own : p.tag = tag := by simpa [more, eq_comm] using present
        rw [if_pos own]
        exact (last_value_absent tag _ nodes more).trans (empty p List.mem_cons_self own)

theorem last_value_snoc (tag value : Text) (nodes : List Ruv) (p : Ruv) :
    lastValue tag value (nodes ++ [p]) = if p.tag = tag then p.val 0 else lastValue tag value nodes := by
  rw [lastValue, List.foldl_append]
  rfl

theorem new_value (token : TagVal) : (Ruv.new token).val 0 = token.2 := by
  simp [Ruv.new, Ruv.val]

variable (rRPGs : StopTags) (idx : Column)

theorem mark_iff (later : idx ≠ 0) (token : TagVal) (before : List Text) (behind : List Ruv) :
    let val : Column → Text := Function.update (fun _ => []) 0 token.2
    (if rRPGs token.1 = none ∧ token.1 ∉ before then Function.update val idx (lastValue token.1 (val 0) behind) else val) =
        (if rRPGs token.1 = none then Function.update val idx (val 0) else val) ↔
      (rRPGs token.1 = none → (token.1 ∈ before → token.2 = []) ∧ (token.1 ∉ before → lastValue token.1 token.2 behind = token.2)) := by
  intro val
  have own : val 0 = token.2 := Function.update_self ..
  have blank : val idx = [] := Function.update_of_ne later ..
  rw [own]
  by_cases leaf : rRPGs token.1 = none
  · rw [if_pos leaf]
    by_cases seen : token.1 ∈ before
    · rw [if_neg fun both => both.2 seen, eq_comm, Function.update_eq_self_iff, blank]
      simp [leaf, seen]
    · rw [if_pos ⟨leaf, seen⟩, (Function.update_injective val idx).eq_iff]
      simp [leaf, seen]
  · simp [leaf]

theorem level_iff (token : TagVal) (before : List Text) (behind : List Ruv) :
    ((rRPGs token.1 = none → (token.1 ∈ before → token.2 = []) ∧ (token.1 ∉ before → lastValue token.1 token.2 behind = token.2)) ∧
        ∀ q ∈ behind, rRPGs q.tag = none → q.tag ∈ token.1 :: before → q.val 0 = []) ↔
      ((rRPGs token.1 = none → token.1 ∈ before → token.2 = []) ∧ ∀ q ∈ behind, rRPGs q.tag = none → q.tag ∈ before → q.val 0 = []) ∧
        (rRPGs token.1 = none → token.1 ∈ behind.map Ruv.tag → token.2 = [] ∧ ∀ q ∈ behind, q.tag = token.1 → q.val 0 = []) := by
  refine ⟨fun kept => ?_, fun quiet => ?_⟩
  · obtain ⟨here, later⟩ := kept
    refine ⟨⟨fun leaf => (here leaf).1, fun q member free seen => later q member free (List.mem_cons_of_mem _ seen)⟩, fun leaf again => ?_⟩
    have empty : ∀ q ∈ behind, q.tag = token.1 → q.val 0 = [] :=
      fun q member own => later q member (own ▸ leaf) (own ▸ List.mem_cons_self)
    refine ⟨?_, empty⟩
    by_cases seen : token.1 ∈ before
    · exact (here leaf).1 seen
    · exact ((here leaf).2 seen).symm.trans (last_value_empty token.1 token.2 behind again empty)
  · obtain ⟨⟨first, later⟩, repeats⟩ := quiet
    refine ⟨fun leaf => ⟨first leaf, fun _ => ?_⟩, fun q member free seen => ?_⟩
    · by_cases again : token.1 ∈ behind.map Ruv.tag
      · obtain ⟨empty, others⟩ := repeats leaf again
        rw [last_value_empty token.1 token.2 behind again others, empty]
      · exact last_value_absent token.1 token.2 behind again
    · cases List.mem_cons.mp seen with
      | inl own => exact (repeats (own ▸ free) (own ▸ List.mem_map_of_mem member)).2 q member own
      | inr earlier => exact later q member free earlier

theorem reread_again_iff (later : idx ≠ 0) (forest : Brackets.Forest Text Text) (before : List Text) :
    reread rRPGs idx before (nodes forest) = again rRPGs idx (nodes forest) ↔
      (∀ p ∈ nodes forest, rRPGs p.tag = none → p.tag ∈ before → p.val 0 = []) ∧ EmptyRepeats rRPGs (nodes forest) := by
  induction forest generalizing before with
  | nil => simp [nodes, reread, again, EmptyRepeats]
  | node token children rest ihChildren ih =>
      let p := (Ruv.new token).setChildren (nodes children)
      have tag : p.tag = token.1 := rfl
      have value : p.val 0 = token.2 := new_value token
      have inner := ihChildren []
      simp only [List.not_mem_nil, false_imp_iff, imp_true_iff, true_and] at inner
      have head : p.reread rRPGs idx before (nodes rest) = p.again rRPGs idx ↔
          (rRPGs token.1 = none →
            (token.1 ∈ before → token.2 = []) ∧ (token.1 ∉ before → lastValue token.1 token.2 (nodes rest) = token.2)) ∧
            EmptyRepeats rRPGs (nodes children) := by
        refine Iff.trans ?_ (and_congr (mark_iff rRPGs idx later token before (nodes rest)) inner)
        simp only [p, Ruv.new, Ruv.setChildren, Ruv.reread, Ruv.again, Ruv.node.injEq, true_and]
      have repeated : (∀ q ∈ p :: nodes rest, q.tag = p.tag → q.val 0 = []) ↔
          token.2 = [] ∧ ∀ q ∈ nodes rest, q.tag = token.1 → q.val 0 = [] := by
        rw [List.forall_mem_cons, value, tag, forall_prop_of_true rfl]
      have level := level_iff rRPGs token before (nodes rest)
      have own : p.EmptyRepeats rRPGs = EmptyRepeats rRPGs (nodes children) := rfl
      rw [nodes, reread, again, List.cons.injEq, head, ih, List.forall_mem_cons, EmptyRepeats, repeated, tag, value, own]
      refine ⟨fun kept => ?_, fun quiet => ?_⟩
      · obtain ⟨⟨here, inside⟩, later, behind⟩ := kept
        obtain ⟨known, repeats⟩ := level.mp ⟨here, later⟩
        exact ⟨known, repeats, inside, behind⟩
      · obtain ⟨known, repeats, inside, behind⟩ := quiet
        obtain ⟨here, later⟩ := level.mpr ⟨known, repeats⟩
        exact ⟨⟨here, inside⟩, later, behind⟩

end Columns

section Again

variable (rTagVals : List TagVal) (rRPGs : StopTags) (idx : Column)

def CountsGroups (done : List Ruv) (counting : Text → Nat) : Prop :=
  ∀ tag, rRPGs tag ≠ none → counting tag = (kids tag done).length

theorem reread_tags (before : List Text) (done : List Ruv) : (reread rRPGs idx before done).map Ruv.tag = done.map Ruv.tag := by
  induction done generalizing before with
  | nil => rfl
  | cons p done ih =>
      obtain ⟨tag, val, children⟩ := p
      rw [reread, List.map_cons, List.map_cons, ih]
      rfl

theorem kids_tags (tag : Text) (children : List Ruv) : (kids tag children).length = (children.map Ruv.tag).count tag := by
  rw [kids, ← List.countP_eq_length_filter, List.count, List.countP_map]
  exact List.countP_congr fun p _ => by simp

theorem reread_snoc (before : List Text) (done : List Ruv) (p : Ruv) (untouched : p.tag ∈ before ∨ rRPGs p.tag ≠ none) :
    reread rRPGs idx before (done ++ [p]) = reread rRPGs idx before done ++ [p.setChildren (reread rRPGs idx [] p.children)] := by
  induction done generalizing before with
  | nil =>
      obtain ⟨tag, val, children⟩ := p
      have kept : ¬ (rRPGs tag = none ∧ tag ∉ before) := fun both => untouched.elim both.2 fun group => group both.1
      simp [reread, Ruv.reread, kept, Ruv.setChildren, Ruv.children]
  | cons q done ih =>
      obtain ⟨tag, val, children⟩ := q
      have same : (Ruv.node tag val children).reread rRPGs idx before (done ++ [p]) =
          (Ruv.node tag val children).reread rRPGs idx before done := by
        by_cases fresh : rRPGs tag = none ∧ tag ∉ before
        · have other : p.tag ≠ tag := fun equal => untouched.elim (equal ▸ fresh.2) fun group => group (equal ▸ fresh.1)
          rw [Ruv.reread, Ruv.reread, if_pos fresh, if_pos fresh, last_value_snoc, if_neg other]
        · rw [Ruv.reread, Ruv.reread, if_neg fresh, if_neg fresh]
      rw [List.cons_append, reread, reread, same, ih _ (untouched.imp_left (List.mem_cons_of_mem _)), List.cons_append]

theorem set_field_reread (token : TagVal) (before : List Text) (done behind : List Ruv) (absent : token.1 ∉ before)
    (plain : rRPGs token.1 = none) :
    setField idx token (reread rRPGs idx before done ++ (Ruv.new token).setChildren [] :: behind) =
      reread rRPGs idx before (done ++ [(Ruv.new token).setChildren []]) ++ behind := by
  induction done generalizing before with
  | nil => simp [reread, Ruv.reread, Ruv.new, Ruv.setChildren, setField, Ruv.tag, Ruv.setVal, plain, absent, lastValue]
  | cons p done ih =>
      obtain ⟨tag, val, children⟩ := p
      by_cases own : tag = token.1
      · have later := reread_snoc rRPGs idx (tag :: before) done ((Ruv.new token).setChildren []) (.inl (own ▸ List.mem_cons_self))
        have first : rRPGs tag = none ∧ tag ∉ before := ⟨own ▸ plain, own ▸ absent⟩
        have last : lastValue tag (val 0) (done ++ [(Ruv.new token).setChildren []]) = token.2 := by
          rw [last_value_snoc]
          exact (if_pos own.symm).trans (new_value token)
        simp only [List.cons_append, reread, Ruv.reread, if_pos first, setField, Ruv.tag, if_pos own, Ruv.setVal, Function.update_idem, last]
        rw [later, List.append_assoc]
        rfl
      · have skipped := ih (tag :: before) fun seen => (List.mem_cons.mp seen).elim (Ne.symm own) absent
        have same : (Ruv.node tag val children).reread rRPGs idx before (done ++ [(Ruv.new token).setChildren []]) =
            (Ruv.node tag val children).reread rRPGs idx before done := by
          have last : lastValue tag (val 0) (done ++ [(Ruv.new token).setChildren []]) = lastValue tag (val 0) done := by
            rw [last_value_snoc]
            exact if_neg (Ne.symm own)
          rw [Ruv.reread, Ruv.reread, last]
        rw [List.cons_append, reread, reread, same, List.cons_append, List.cons_append, setField]
        simp only [Ruv.tag] at skipped ⊢
        rw [skipped]
        simp [Ruv.reread, own]

theorem counts_leaf (done : List Ruv) (p : Ruv) (counting : Text → Nat) (counts : CountsGroups rRPGs done counting)
    (plain : rRPGs p.tag = none) : CountsGroups rRPGs (done ++ [p]) counting := by
  intro tag group
  have other : p.tag ≠ tag := fun same => group (same ▸ plain)
  rw [counts tag group, kids_append, kids_cons, if_neg other]
  simp [kids]

theorem counts_group (done : List Ruv) (p : Ruv) (level : Level) (counts : CountsGroups rRPGs done level.counting) :
    CountsGroups rRPGs (done ++ [p]) (level.bump p.tag).counting := by
  intro tag group
  have before := counts tag group
  by_cases own : p.tag = tag
  · subst own
    simp [Level.bump, before, kids]
  · simp [Level.bump, Function.update_of_ne (Ne.symm own), before, own, kids]

theorem group_place_again (token : TagVal) (level : Level) (done behind : List Ruv) (p : Ruv) (later : idx ≠ 0)
    (shape : level.children = done ++ p :: behind) (own : p.tag = token.1) (group : rRPGs token.1 ≠ none)
    (counts : CountsGroups rRPGs done level.counting) : groupPlace idx level token = (done ++ p :: behind, done.length) := by
  have count : (level.bump token.1).counting token.1 = (kids token.1 done).length + 1 := by
    rw [← counts token.1 group]
    simp [Level.bump]
  rw [groupPlace, count, shape]
  exact place_again idx token done behind p later own

theorem counts_reread (done : List Ruv) (counting : Text → Nat) (counts : CountsGroups rRPGs done counting) :
    CountsGroups rRPGs (reread rRPGs idx [] done) counting := by
  intro tag group
  rw [counts tag group, kids_tags, kids_tags, reread_tags]

-- The same pairs once more: the reader finds every node it looks for, the group
-- at the place where it stands itself.
theorem ssmake_rereads (later : idx ≠ 0) (stop : Option Text) (tokens rest : List TagVal) (forest : Brackets.Forest Text Text)
    (reads : Reads rRPGs stop tokens forest rest) (fuel : Nat) (level : Level) (inc : Nat) (done : List Ruv)
    (ahead : Ahead (pairSource rTagVals) inc tokens) (enough : 2 * tokens.length + 1 ≤ fuel)
    (shape : level.children = reread rRPGs idx [] done ++ nodes forest) (counts : CountsGroups rRPGs done level.counting) :
    ∃ made after, ssmake rTagVals rRPGs idx fuel level inc stop = .ok (made, after) ∧
      made.children = reread rRPGs idx [] (done ++ nodes forest) ∧ Ahead (pairSource rTagVals) after rest := by
  induction reads generalizing fuel level inc done with
  | done stop =>
      obtain ⟨fuel, rfl⟩ : ∃ less, fuel = less + 1 := ⟨fuel - 1, by omega⟩
      have finished : inc = rTagVals.length := ahead
      rw [finished]
      refine ⟨level, rTagVals.length, ssmake_done rTagVals rRPGs idx fuel level stop, ?_, rfl⟩
      rw [shape, nodes, List.append_nil, List.append_nil]
  | closed token tail =>
      obtain ⟨fuel, rfl⟩ : ∃ less, fuel = less + 1 := ⟨fuel - 1, by omega⟩
      refine ⟨level, inc, ssmake_closed rTagVals rRPGs idx fuel level inc token tail ahead, ?_, ahead⟩
      rw [shape, nodes, List.append_nil, List.append_nil]
  | leaf stop token tail rest forest other plain behind ih =>
      obtain ⟨fuel, rfl⟩ : ∃ less, fuel = less + 1 := ⟨fuel - 1, by omega⟩
      simp only [List.length_cons] at enough
      let leaf := (Ruv.new token).setChildren []
      have written : addField idx token level.children = reread rRPGs idx [] (done ++ [leaf]) ++ nodes forest := by
        rw [addField, if_neg later, shape, nodes, nodes]
        exact set_field_reread rRPGs idx token [] done (nodes forest) List.not_mem_nil plain
      obtain ⟨made, after, run, children, left⟩ := ih fuel { level with children := addField idx token level.children } (inc + 1)
        (done ++ [leaf]) ahead.2.2 (by omega) written (counts_leaf rRPGs done leaf level.counting counts plain)
      refine ⟨made, after, ?_, ?_, left⟩
      · rw [ssmake_leaf rTagVals rRPGs idx fuel level inc stop token tail ahead other plain, run]
      · rw [children, List.append_assoc, List.singleton_append]
        rfl
  | skip stop token next tail rest forest other empty behind ih =>
      obtain ⟨fuel, rfl⟩ : ∃ less, fuel = less + 1 := ⟨fuel - 1, by omega⟩
      simp only [List.length_cons] at enough ih
      obtain ⟨made, after, run, children, left⟩ := ih fuel level (inc + 1) done ahead.2.2 (by omega) shape counts
      refine ⟨made, after, ?_, children, left⟩
      rw [ssmake_start rTagVals rRPGs idx fuel level inc stop token next next.1 tail ahead other empty, if_neg (by simp), run]
  | group stop token next closing tail middle rest inner forest other opening filled inside behind ihInside ih =>
      simp only [List.length_cons] at enough ihInside
      obtain ⟨fuel, rfl⟩ : ∃ less, fuel = less + 4 := ⟨fuel - 4, by omega⟩
      let p := (Ruv.new token).setChildren (nodes inner)
      have own : p.tag = token.1 := rfl
      have group : rRPGs token.1 ≠ none := by simp [opening]
      have place := group_place_again rRPGs idx token level (reread rRPGs idx [] done) (nodes forest) p later shape own group
        (counts_reread rRPGs idx done level.counting counts)
      have held : childrenAt (groupPlace idx level token).2 (groupPlace idx level token).1 = nodes inner := by
        simp [place, childrenAt, p, Ruv.new, Ruv.setChildren, Ruv.children]
      obtain ⟨filledIn, position, innerRun, innerChildren, innerLeft⟩ := ihInside (fuel + 2) ⟨nodes inner, fun _ => 0⟩ (inc + 1) []
        ahead.2.2 (by omega) rfl fun _ _ => rfl
      have spent := reads_spends rRPGs (some closing) next tail middle inner (fun same => filled (Option.some.inj same).symm) inside
      have entries := ssmake_entries_turn rTagVals rRPGs idx (fuel + 1) level filledIn inc position token next closing tail
        middle ahead.2.2 filled (by rw [held]; exact innerRun) innerLeft
        (reads_left rRPGs (some closing) (next :: tail) middle inner inside)
      have put : (groupPlace idx level token).1.modify (groupPlace idx level token).2 (Ruv.setChildren filledIn.children) =
          reread rRPGs idx [] (done ++ [p]) ++ nodes forest := by
        have changed := modify_middle (reread rRPGs idx [] done) (nodes forest) p (Ruv.setChildren filledIn.children)
        rw [place, changed, reread_snoc rRPGs idx [] done p (.inr group), innerChildren, List.append_assoc, List.singleton_append]
        rfl
      obtain ⟨made, after, run, children, left⟩ := ih (fuel + 3)
        ⟨(groupPlace idx level token).1.modify (groupPlace idx level token).2 (Ruv.setChildren filledIn.children),
          (level.bump token.1).counting⟩ position (done ++ [p]) innerLeft (by omega) put
        (counts_group rRPGs done p level counts)
      refine ⟨made, after, ?_, ?_, left⟩
      · rw [ssmake_start rTagVals rRPGs idx (fuel + 3) level inc stop token next closing tail ahead other opening, if_pos filled,
          entries, Fallible.ok_bind, run]
      · rw [children, List.append_assoc, List.singleton_append]
        rfl

end Again

theorem ssmake_again (tokens : List TagVal) (rRPGs : StopTags) (idx : Column) (later : idx ≠ 0) (tree : List Ruv)
    (plain : ∀ token, tokens.getLast? = some token → rRPGs token.1 = none) (first : ssmakeRoot [] tokens rRPGs 0 = .ok tree) :
    ssmakeRoot tree tokens rRPGs idx = .ok (reread rRPGs idx [] tree) ∧
      (ssmakeRoot tree tokens rRPGs idx = .ok (again rRPGs idx tree) ↔ EmptyRepeats rRPGs tree) := by
  obtain ⟨forest, rest, reads⟩ := reads_exists rRPGs none tokens plain
  obtain rfl : nodes forest = tree := Except.ok.inj ((root_reads tokens rRPGs forest rest reads).symm.trans first)
  obtain ⟨made, after, run, children, _⟩ := ssmake_rereads tokens rRPGs idx later none tokens rest forest reads (enoughFuel tokens)
    ⟨nodes forest, fun _ => 0⟩ 0 [] (pairs_ahead tokens 0 tokens rfl (Nat.zero_le _)) le_rfl rfl fun _ _ => rfl
  have result : ssmakeRoot (nodes forest) tokens rRPGs idx = .ok (reread rRPGs idx [] (nodes forest)) := by
    rw [ssmakeRoot, run, Fallible.ok_map, children, List.nil_append]
  have same := reread_again_iff rRPGs idx later forest []
  simp only [List.not_mem_nil, false_imp_iff, imp_true_iff, true_and] at same
  exact ⟨result, by rw [result, Except.ok.injEq, same]⟩

theorem ssmake_again_parts :
    let tokens (stop stop' : Text) : List TagVal := [(['S'], []), (['a'], ['1']), (['E'], stop), (['S'], []), (['a'], ['2']), (['E'], stop')]
    let rRPGs := startStops [(['S'], ['E'])]
    let tree (stop stop' : Text) := [(Ruv.new (['S'], [])).setChildren [Ruv.new (['a'], ['1'])], Ruv.new (['E'], stop),
      (Ruv.new (['S'], [])).setChildren [Ruv.new (['a'], ['2'])], Ruv.new (['E'], stop')]
    ssmakeRoot (tree [] []) (tokens [] []) rRPGs 1 = .ok (again rRPGs 1 (tree [] [])) ∧
      ssmakeRoot (tree ['3'] ['4']) (tokens ['3'] ['4']) rRPGs 1 = .ok
        [(Ruv.new (['S'], [])).setChildren [(Ruv.new (['a'], ['1'])).setVal 1 ['1']], (Ruv.new (['E'], ['3'])).setVal 1 ['4'],
          (Ruv.new (['S'], [])).setChildren [(Ruv.new (['a'], ['2'])).setVal 1 ['2']], Ruv.new (['E'], ['4'])] := by
  intro tokens rRPGs tree
  have empty := ssmake_again (tokens [] []) rRPGs 1 (by decide) (tree [] []) (by decide) rfl
  have valued := ssmake_again (tokens ['3'] ['4']) rRPGs 1 (by decide) (tree ['3'] ['4']) (by decide) rfl
  refine ⟨empty.2.mpr ?_, valued.1.trans ?_⟩
  · simp [tree, EmptyRepeats, Ruv.EmptyRepeats, Ruv.new, Ruv.setChildren, Ruv.tag, Ruv.val, rRPGs, startStops]
  · rfl

end Libx.Viewer

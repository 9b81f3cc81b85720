import Libx.Ruv.Model
import Libx.Lib.CountedReader

set_option autoImplicit false

namespace Libx.Viewer

open Counted

abbrev PairItems := Items Text Text
abbrev PairEntries := Entries Text Text

def pairSource (rTagVals : List TagVal) : Source Text Text Fault where
  size := rTagVals.length
  token := readPair rTagVals
  fuel := .fuel

def placed (idx : Column) (level : Level) (counter : TagVal) : List Ruv × Nat :=
  placeEntry idx counter (level.counting counter.1 + 1) level.children

def levelBuilder (idx : Column) : Builder Text Text Level where
  field level pair := { level with children := addField idx pair level.children }
  enter level counter := ⟨childrenAt (placed idx level counter).2 (placed idx level counter).1, fun _ => 0⟩
  leave level counter inner := { level.bump counter.1 with
    children := (placed idx level counter).1.modify (placed idx level counter).2 (Ruv.setChildren inner.children) }

@[simp] theorem pair_source_size (rTagVals : List TagVal) : (pairSource rTagVals).size = rTagVals.length := rfl
@[simp] theorem pair_source_token (rTagVals : List TagVal) : (pairSource rTagVals).token = readPair rTagVals := rfl

theorem refresh_next (rTagVals : List TagVal) (pos : Nat) (npair : TagVal) :
    (pairSource rTagVals).refresh pos npair = nextPair rTagVals pos npair := rfl

theorem entries_unfold (rTagVals : List TagVal) (rRPGs : Groups Text) (idx : Column) (pair : TagVal) (rRptTags : Finset Text)
    (fuel : Nat) (level : Level) (pos : Nat) (npair : TagVal) (inside : pos < rTagVals.length ∧ npair.1 ∈ rRptTags) :
    rmakeEntries rTagVals rRPGs idx pair rRptTags (fuel + 1) level pos npair =
      rmake rTagVals rRPGs idx fuel ((levelBuilder idx).enter level pair) pos (some rRptTags) >>= fun made =>
        nextPair rTagVals made.2 npair >>= fun npair =>
          rmakeEntries rTagVals rRPGs idx pair rRptTags fuel ((levelBuilder idx).leave level pair made.1) made.2 npair := by
  rw [rmakeEntries, if_pos inside]
  simp only [levelBuilder, placed, Level.bump, Function.update_self]

-- The source function is the counted-group reader over the pairs; induction on
-- the fuel, both loops together.
theorem rmake_reads (rTagVals : List TagVal) (rRPGs : Groups Text) (idx : Column) (fuel : Nat) :
    (∀ (level : Level) (inc : Nat) (pRPG : Option (Finset Text)),
      rmake rTagVals rRPGs idx fuel level inc pRPG =
        readItems (pairSource rTagVals) (levelBuilder idx) rRPGs fuel level inc pRPG) ∧
    (∀ (pair : TagVal) (rRptTags : Finset Text) (level : Level) (pos : Nat) (npair : TagVal),
      rmakeEntries rTagVals rRPGs idx pair rRptTags fuel level pos npair =
        readEntries (pairSource rTagVals) (levelBuilder idx) rRPGs pair rRptTags fuel level pos npair) := by
  induction fuel with
  | zero => exact ⟨fun _ _ _ => rfl, fun _ _ _ _ _ => rfl⟩
  | succ fuel ih =>
      obtain ⟨ihItems, ihEntries⟩ := ih
      constructor
      · intro level inc pRPG
        rw [rmake, readItems, pair_source_size, pair_source_token]
        by_cases bound : inc < rTagVals.length
        · rw [if_pos bound, if_pos bound]
          cases readPair rTagVals inc with
          | error fault => rw [Fallible.error_bind, Fallible.error_bind]
          | ok pair =>
              simp only [Fallible.ok_bind]
              by_cases blocked : pRPG.any (pair.1 ∉ ·) = true
              · rw [if_pos blocked, if_pos blocked]
              · rw [if_neg blocked, if_neg blocked]
                cases rRPGs pair.1 with
                | none => simp only [ihItems, levelBuilder, consume]
                | some rRptTags => simp only [ihItems, ihEntries, consume]
        · rw [if_neg bound, if_neg bound]
      · intro pair rRptTags level pos npair
        by_cases inside : pos < rTagVals.length ∧ npair.1 ∈ rRptTags
        · rw [entries_unfold rTagVals rRPGs idx pair rRptTags fuel level pos npair inside, readEntries, pair_source_size,
            if_pos inside]
          simp only [ihItems, ihEntries, refresh_next]
        · rw [rmakeEntries, readEntries, pair_source_size, if_neg inside, if_neg inside]

theorem pairs_ahead (rTagVals : List TagVal) (pos : Nat) (pairs : List TagVal) (suffix : rTagVals.drop pos = pairs)
    (within : pos ≤ rTagVals.length) : Ahead (pairSource rTagVals) pos pairs := by
  induction pairs generalizing pos with
  | nil =>
      have behind := List.drop_eq_nil_iff.mp suffix
      show pos = rTagVals.length
      omega
  | cons pair tail ih =>
      have bound : pos < rTagVals.length := by
        have lengths := congrArg List.length suffix
        simp only [List.length_drop, List.length_cons] at lengths
        omega
      simp only [List.drop_eq_getElem_cons bound, List.cons.injEq] at suffix
      refine ⟨bound, ?_, ih (pos + 1) suffix.2 bound⟩
      simp [pairSource, readPair, List.getElem?_eq_getElem bound, suffix.1]

def readInto (idx : Column) (items : PairItems) (children : List Ruv) : List Ruv :=
  ((levelBuilder idx).items items ⟨children, fun _ => 0⟩).children

theorem root_parsed (root : List Ruv) (rRPGs : Groups Text) (idx : Column) (items : PairItems)
    (parsed : items.Parsed rRPGs none []) :
    rmakeRoot root items.render rRPGs idx = .ok (readInto idx items root) := by
  have ahead : Ahead (pairSource items.render) 0 (items.render ++ []) := by
    simpa using pairs_ahead items.render 0 items.render rfl (Nat.zero_le _)
  rw [rmakeRoot, (rmake_reads items.render rRPGs idx _).1,
    read_parsed _ (levelBuilder idx) rRPGs _ _ 0 none items [] parsed ahead (by simp [enoughFuel])]
  rfl

theorem top_tags_from (rTagVals : List TagVal) (rRPGs : Groups Text) (fuel inc : Nat) (items : PairItems)
    (parsed : items.Parsed rRPGs none []) (ahead : Ahead (pairSource rTagVals) inc items.render)
    (enough : 2 * items.render.length + 1 ≤ fuel) : topTags rTagVals rRPGs fuel inc = items.tags := by
  obtain ⟨fuel, rfl⟩ : ∃ less, fuel = less + 1 := ⟨fuel - 1, by omega⟩
  cases items with
  | nil =>
      have behind : readPair rTagVals inc = .error (.outOfRange inc) := by
        rw [items_render_nil] at ahead
        have finished : inc = rTagVals.length := ahead
        simp [readPair, finished]
      simp [topTags, behind, Items.tags]
  | field tag val more =>
      rw [items_render_field] at ahead
      simp only [items_render_field, List.length_cons] at enough
      have read : readPair rTagVals inc = .ok (tag, val) := ahead.2.1
      simp only [topTags, read, parsed.2.1, Items.tags]
      rw [top_tags_from rTagVals rRPGs fuel (inc + 1) more parsed.2.2 ahead.2.2 (by omega)]
  | group tag val entries more =>
      rw [items_render_group] at ahead
      simp only [items_render_group, List.length_cons, List.length_append] at enough
      obtain ⟨_, following, ⟨members, kind, entriesParsed⟩, moreParsed⟩ := parsed
      rw [List.append_nil] at following entriesParsed
      obtain ⟨next, tail, shape⟩ := List.exists_cons_of_ne_nil following
      have read : readPair rTagVals inc = .ok (tag, val) := ahead.2.1
      have look : readPair rTagVals (inc + 1) = .ok next := by
        have inner := ahead.2.2
        rw [shape] at inner
        exact inner.2.1
      have made := read_entries_parsed (pairSource rTagVals) (levelBuilder 0) rRPGs fuel ⟨[], fun _ => 0⟩ (inc + 1) (tag, val)
        members next entries more.render entriesParsed ahead.2.2 (shape ▸ looks_at_head next tail) (by omega)
      simp only [topTags, read, kind, look, Items.tags, (rmake_reads rTagVals rRPGs 0 fuel).2, made]
      rw [top_tags_from rTagVals rRPGs fuel _ more moreParsed (ahead_append _ _ entries.render _ ahead.2.2) (by omega)]

theorem top_tags_items (rRPGs : Groups Text) (items : PairItems) (parsed : items.Parsed rRPGs none []) :
    topTags items.render rRPGs (enoughFuel items.render) 0 = items.tags :=
  top_tags_from items.render rRPGs _ 0 items parsed (pairs_ahead _ 0 _ rfl (Nat.zero_le _)) le_rfl

end Libx.Viewer

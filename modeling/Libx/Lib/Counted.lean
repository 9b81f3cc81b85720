import Mathlib.Data.Finset.Basic
import Mathlib.Data.List.Nodup

set_option autoImplicit false

namespace Libx.Counted

-- A message is a sequence of fields and counted groups. A group is announced by
-- a counter token and followed by its entries; neither the number of entries
-- nor their ends are written, a reader infers both from the tags.
mutual
inductive Items (τ ν : Type) where
  | nil
  | field (tag : τ) (val : ν) (more : Items τ ν)
  | group (tag : τ) (val : ν) (entries : Entries τ ν) (more : Items τ ν)
inductive Entries (τ ν : Type) where
  | nil
  | cons (entry : Items τ ν) (more : Entries τ ν)
end

abbrev Token (τ ν : Type) := τ × ν
abbrev Groups (τ : Type) := τ → Option (Finset τ)

variable {τ ν : Type}

mutual
def Items.render : Items τ ν → List (Token τ ν)
  | .nil => []
  | .field tag val more => (tag, val) :: more.render
  | .group tag val entries more => (tag, val) :: (entries.render ++ more.render)
def Entries.render : Entries τ ν → List (Token τ ν)
  | .nil => []
  | .cons entry more => entry.render ++ more.render
end

mutual
def Items.fields : Items τ ν → List (Token τ ν)
  | .nil => []
  | .field tag val more => (tag, val) :: more.fields
  | .group _ _ entries more => entries.fields ++ more.fields
def Entries.fields : Entries τ ν → List (Token τ ν)
  | .nil => []
  | .cons entry more => entry.fields ++ more.fields
end

def Items.tags : Items τ ν → List τ
  | .nil => []
  | .field tag _ more => tag :: more.tags
  | .group tag _ _ more => tag :: more.tags

def Entries.count : Entries τ ν → Nat
  | .nil => 0
  | .cons _ more => more.count + 1

@[simp] theorem items_render_nil : (Items.nil : Items τ ν).render = [] := by rw [Items.render]
@[simp] theorem items_render_field (tag : τ) (val : ν) (more : Items τ ν) :
    (Items.field tag val more).render = (tag, val) :: more.render := by rw [Items.render]
@[simp] theorem items_render_group (tag : τ) (val : ν) (entries : Entries τ ν) (more : Items τ ν) :
    (Items.group tag val entries more).render = (tag, val) :: (entries.render ++ more.render) := by rw [Items.render]
@[simp] theorem entries_render_nil : (Entries.nil : Entries τ ν).render = [] := by rw [Entries.render]
@[simp] theorem entries_render_cons (entry : Items τ ν) (more : Entries τ ν) :
    (Entries.cons entry more).render = entry.render ++ more.render := by rw [Entries.render]

theorem field_distinct (tag : τ) (val : ν) (more : Items τ ν) (distinct : (Items.field tag val more).tags.Nodup) :
    tag ∉ more.tags ∧ more.tags.Nodup := by
  rw [Items.tags] at distinct
  exact List.nodup_cons.mp distinct

theorem group_distinct (tag : τ) (val : ν) (entries : Entries τ ν) (more : Items τ ν)
    (distinct : (Items.group tag val entries more).tags.Nodup) : tag ∉ more.tags ∧ more.tags.Nodup := by
  rw [Items.tags] at distinct
  exact List.nodup_cons.mp distinct

theorem tags_nil_iff (items : Items τ ν) : items.tags = [] ↔ items.render = [] := by
  cases items <;> simp [Items.tags]

theorem render_head_tag (items : Items τ ν) (tag : τ) (first : tag ∈ items.tags.head?) :
    ∃ val tail, items.render = (tag, val) :: tail := by
  cases items with
  | nil => simp [Items.tags] at first
  | field own val more =>
      obtain rfl : own = tag := by simpa [Items.tags] using first
      exact ⟨val, more.render, by simp⟩
  | group own val entries more =>
      obtain rfl : own = tag := by simpa [Items.tags] using first
      exact ⟨val, entries.render ++ more.render, by simp⟩

-- Inside an entry the reader keeps the set of tags it still allows; at top
-- level there is no set and every tag is allowed.
def Admits (allowed : Option (Finset τ)) (tag : τ) : Prop := ∀ set, allowed = some set → tag ∈ set

def HeadIn (set : Finset τ) : List (Token τ ν) → Prop
  | [] => False
  | token :: _ => token.1 ∈ set

def Stops (allowed : Option (Finset τ)) : List (Token τ ν) → Prop
  | [] => True
  | token :: _ => ¬ Admits allowed token.1

@[simp] theorem admits_none (tag : τ) : Admits (none : Option (Finset τ)) tag := by
  intro set absent
  simp at absent

@[simp] theorem admits_some (set : Finset τ) (tag : τ) : Admits (some set) tag ↔ tag ∈ set := by
  simp [Admits]

def LastPlain (groups : Groups τ) (tokens : List (Token τ ν)) : Prop :=
  ∀ token, tokens.getLast? = some token → groups token.1 = none

theorem last_plain_at (groups : Groups τ) (tokens : List (Token τ ν)) (token : Token τ ν) (last : tokens.getLast? = some token)
    (plain : groups token.1 = none) : LastPlain groups tokens := by
  intro other isLast
  rw [last] at isLast
  obtain rfl := Option.some.inj isLast
  exact plain

theorem last_plain_cons (groups : Groups τ) (token : Token τ ν) (tail : List (Token τ ν)) (plain : LastPlain groups tail)
    (alone : tail = [] → groups token.1 = none) : LastPlain groups (token :: tail) := by
  intro last isLast
  cases tail with
  | nil =>
      obtain rfl : token = last := by simpa using isLast
      exact alone rfl
  | cons next others => exact plain last (by simpa [List.getLast?_cons] using isLast)

theorem last_plain_behind (groups : Groups τ) (front back : List (Token τ ν)) (plain : LastPlain groups (front ++ back)) :
    LastPlain groups back := by
  intro token last
  exact plain token (by simp [List.getLast?_append, last])

def Affords (allowed : Option (Finset τ)) (tags : List τ) : Prop :=
  ∀ set, allowed = some set → tags.Nodup ∧ ∀ tag ∈ tags, tag ∈ set

theorem entry_affords (members : Finset τ) (entry : Items τ ν) (distinct : entry.tags.Nodup)
    (inside : ∀ tag ∈ entry.tags, tag ∈ members) : Affords (some members) entry.tags := by
  intro set same
  obtain rfl : members = set := by simpa using same
  exact ⟨distinct, inside⟩

variable [DecidableEq τ]

def consume (allowed : Option (Finset τ)) (tag : τ) : Option (Finset τ) := allowed.map fun set => set.erase tag

@[simp] theorem consume_none (tag : τ) : consume (none : Option (Finset τ)) tag = none := rfl
@[simp] theorem consume_some (set : Finset τ) (tag : τ) : consume (some set) tag = some (set.erase tag) := rfl

-- `Parsed` says that a reader holding the set `allowed` in front of the tokens
-- of the items followed by `rest` reads exactly these items and stops at `rest`.
-- A counter is only ever read with a token after it, the look-ahead token.
mutual
def Items.Parsed (groups : Groups τ) : Option (Finset τ) → Items τ ν → List (Token τ ν) → Prop
  | allowed, .nil, rest => Stops allowed rest
  | allowed, .field tag _ more, rest =>
      Admits allowed tag ∧ groups tag = none ∧ more.Parsed groups (consume allowed tag) rest
  | allowed, .group tag _ entries more, rest =>
      Admits allowed tag ∧ entries.render ++ more.render ++ rest ≠ [] ∧
        (∃ members, groups tag = some members ∧ entries.Parsed groups members (more.render ++ rest)) ∧
        more.Parsed groups (consume allowed tag) rest
def Entries.Parsed (groups : Groups τ) (members : Finset τ) : Entries τ ν → List (Token τ ν) → Prop
  | .nil, rest => ¬ HeadIn members rest
  | .cons entry more, rest =>
      HeadIn members (entry.render ++ more.render ++ rest) ∧
        entry.Parsed groups (some members) (more.render ++ rest) ∧ more.Parsed groups members rest
end

mutual
theorem parsed_unique (groups : Groups τ) (allowed : Option (Finset τ)) (items others : Items τ ν) (rest behind : List (Token τ ν))
    (same : items.render ++ rest = others.render ++ behind) (parsed : items.Parsed groups allowed rest)
    (othersParsed : others.Parsed groups allowed behind) : items = others ∧ rest = behind := by
  cases items with
  | nil =>
      cases others with
      | nil => exact ⟨rfl, by simpa using same⟩
      | field tag val more =>
          obtain rfl : rest = (tag, val) :: (more.render ++ behind) := by simpa using same
          exact absurd othersParsed.1 parsed
      | group tag val entries more =>
          obtain rfl : rest = (tag, val) :: (entries.render ++ (more.render ++ behind)) := by simpa using same
          exact absurd othersParsed.1 parsed
  | field tag val more =>
      cases others with
      | nil =>
          obtain rfl : (tag, val) :: (more.render ++ rest) = behind := by simpa using same
          exact absurd parsed.1 othersParsed
      | field own value others =>
          obtain ⟨⟨rfl, rfl⟩, later⟩ : (tag = own ∧ val = value) ∧ more.render ++ rest = others.render ++ behind := by simpa using same
          obtain ⟨rfl, rfl⟩ := parsed_unique groups (consume allowed tag) more others rest behind later parsed.2.2 othersParsed.2.2
          exact ⟨rfl, rfl⟩
      | group own value entries others =>
          obtain ⟨members, kind, _⟩ := othersParsed.2.2.1
          obtain ⟨⟨rfl, _⟩, _⟩ : (tag = own ∧ val = value) ∧ _ := by simpa using same
          exact absurd (parsed.2.1.symm.trans kind) nofun
  | group tag val entries more =>
      cases others with
      | nil =>
          obtain rfl : (tag, val) :: (entries.render ++ (more.render ++ rest)) = behind := by simpa using same
          exact absurd parsed.1 othersParsed
      | field own value others =>
          obtain ⟨members, kind, _⟩ := parsed.2.2.1
          obtain ⟨⟨rfl, _⟩, _⟩ : (tag = own ∧ val = value) ∧ _ := by simpa using same
          exact absurd (othersParsed.2.1.symm.trans kind) nofun
      | group own value otherEntries others =>
          obtain ⟨⟨rfl, rfl⟩, later⟩ : (tag = own ∧ val = value) ∧
            entries.render ++ (more.render ++ rest) = otherEntries.render ++ (others.render ++ behind) := by simpa using same
          obtain ⟨members, kind, inside⟩ := parsed.2.2.1
          obtain ⟨otherMembers, otherKind, otherInside⟩ := othersParsed.2.2.1
          obtain rfl := Option.some.inj (kind.symm.trans otherKind)
          obtain ⟨rfl, left⟩ := entries_unique groups members entries otherEntries _ _ later inside otherInside
          obtain ⟨rfl, rfl⟩ := parsed_unique groups (consume allowed tag) more others rest behind left parsed.2.2.2 othersParsed.2.2.2
          exact ⟨rfl, rfl⟩
theorem entries_unique (groups : Groups τ) (members : Finset τ) (entries others : Entries τ ν) (rest behind : List (Token τ ν))
    (same : entries.render ++ rest = others.render ++ behind) (parsed : entries.Parsed groups members rest)
    (othersParsed : others.Parsed groups members behind) : entries = others ∧ rest = behind := by
  cases entries with
  | nil =>
      cases others with
      | nil => exact ⟨rfl, by simpa using same⟩
      | cons entry more =>
          obtain rfl : rest = entry.render ++ (more.render ++ behind) := by simpa using same
          exact absurd (by simpa using othersParsed.1) parsed
  | cons entry more =>
      cases others with
      | nil =>
          obtain rfl : entry.render ++ (more.render ++ rest) = behind := by simpa using same
          exact absurd (by simpa using parsed.1) othersParsed
      | cons other others =>
          have later : entry.render ++ (more.render ++ rest) = other.render ++ (others.render ++ behind) := by simpa using same
          obtain ⟨rfl, left⟩ := parsed_unique groups (some members) entry other _ _ later parsed.2.1 othersParsed.2.1
          obtain ⟨rfl, rfl⟩ := entries_unique groups members more others rest behind left parsed.2.2 othersParsed.2.2
          exact ⟨rfl, rfl⟩
end

theorem entry_not_nil (groups : Groups τ) (members : Finset τ) (entry : Items τ ν) (rest : List (Token τ ν))
    (first : HeadIn members (entry.render ++ rest)) (parsed : entry.Parsed groups (some members) rest) :
    entry.render ≠ [] := by
  cases entry with
  | nil =>
      cases rest with
      | nil => simp [HeadIn] at first
      | cons token tail => simp_all [HeadIn, Items.Parsed, Stops]
  | field => simp
  | group => simp

theorem entries_not_nil (groups : Groups τ) (members : Finset τ) (entries : Entries τ ν) (rest : List (Token τ ν))
    (first : HeadIn members (entries.render ++ rest)) (parsed : entries.Parsed groups members rest) :
    entries.render ≠ [] := by
  cases entries with
  | nil => exact fun _ => parsed (by simpa using first)
  | cons entry more =>
      have spent := entry_not_nil groups members entry (more.render ++ rest) (by simpa using first) parsed.2.1
      simp [spent]

theorem parsed_none_rest (groups : Groups τ) (items : Items τ ν) (rest : List (Token τ ν))
    (parsed : items.Parsed groups none rest) : rest = [] := by
  cases items with
  | nil =>
      cases rest with
      | nil => rfl
      | cons token tail => simp [Items.Parsed, Stops] at parsed
  | field tag val more => exact parsed_none_rest groups more rest parsed.2.2
  | group tag val entries more => exact parsed_none_rest groups more rest parsed.2.2.2

mutual
inductive ItemsOverrun (groups : Groups τ) : Option (Finset τ) → List (Token τ ν) → Prop where
  | counter {allowed : Option (Finset τ)} (tag : τ) (val : ν) (admitted : Admits allowed tag)
      (kind : groups tag ≠ none) : ItemsOverrun groups allowed [(tag, val)]
  | field {allowed : Option (Finset τ)} (tag : τ) (val : ν) (tail : List (Token τ ν)) (admitted : Admits allowed tag)
      (kind : groups tag = none) (later : ItemsOverrun groups (consume allowed tag) tail) :
      ItemsOverrun groups allowed ((tag, val) :: tail)
  | inside {allowed : Option (Finset τ)} (tag : τ) (val : ν) (members : Finset τ) (tail : List (Token τ ν))
      (admitted : Admits allowed tag) (kind : groups tag = some members) (within : EntriesOverrun groups members tail) :
      ItemsOverrun groups allowed ((tag, val) :: tail)
  | behind {allowed : Option (Finset τ)} (tag : τ) (val : ν) (members : Finset τ) (entries : Entries τ ν)
      (rest : List (Token τ ν)) (admitted : Admits allowed tag) (kind : groups tag = some members)
      (parsed : entries.Parsed groups members rest) (later : ItemsOverrun groups (consume allowed tag) rest) :
      ItemsOverrun groups allowed ((tag, val) :: (entries.render ++ rest))
inductive EntriesOverrun (groups : Groups τ) : Finset τ → List (Token τ ν) → Prop where
  | inside {members : Finset τ} (tokens : List (Token τ ν)) (first : HeadIn members tokens)
      (within : ItemsOverrun groups (some members) tokens) : EntriesOverrun groups members tokens
  | behind {members : Finset τ} (entry : Items τ ν) (rest : List (Token τ ν))
      (first : HeadIn members (entry.render ++ rest)) (parsed : entry.Parsed groups (some members) rest)
      (later : EntriesOverrun groups members rest) : EntriesOverrun groups members (entry.render ++ rest)
end

mutual
theorem items_overrun_last (groups : Groups τ) : ∀ {allowed : Option (Finset τ)} {tokens : List (Token τ ν)},
    ItemsOverrun groups allowed tokens → ∃ token, tokens.getLast? = some token ∧ groups token.1 ≠ none
  | _, _, .counter tag val _ kind => ⟨(tag, val), rfl, kind⟩
  | _, _, .field tag val tail _ _ later => by
      obtain ⟨token, last, counter⟩ := items_overrun_last groups later
      exact ⟨token, by simp [List.getLast?_cons, last], counter⟩
  | _, _, .inside tag val members tail _ _ within => by
      obtain ⟨token, last, counter⟩ := entries_overrun_last groups within
      exact ⟨token, by simp [List.getLast?_cons, last], counter⟩
  | _, _, .behind tag val members entries rest _ _ _ later => by
      obtain ⟨token, last, counter⟩ := items_overrun_last groups later
      exact ⟨token, by simp [List.getLast?_cons, List.getLast?_append, last], counter⟩
theorem entries_overrun_last (groups : Groups τ) : ∀ {members : Finset τ} {tokens : List (Token τ ν)},
    EntriesOverrun groups members tokens → ∃ token, tokens.getLast? = some token ∧ groups token.1 ≠ none
  | _, _, .inside tokens _ within => items_overrun_last groups within
  | _, _, .behind entry rest _ _ later => by
      obtain ⟨token, last, counter⟩ := entries_overrun_last groups later
      exact ⟨token, by simp [List.getLast?_append, last], counter⟩
end

theorem overrun_nonempty (groups : Groups τ) {allowed : Option (Finset τ)} {tokens : List (Token τ ν)}
    (overrun : ItemsOverrun groups allowed tokens) : tokens ≠ [] := by
  obtain ⟨token, last, _⟩ := items_overrun_last groups overrun
  rintro rfl
  simp at last

theorem entries_overrun_head (groups : Groups τ) {members : Finset τ} {tokens : List (Token τ ν)}
    (overrun : EntriesOverrun groups members tokens) : HeadIn members tokens := by
  cases overrun with
  | inside _ first _ => exact first
  | behind _ _ first _ _ => exact first

def ItemsOutcome (groups : Groups τ) (allowed : Option (Finset τ)) (tokens : List (Token τ ν)) : Prop :=
  (∃ (items : Items τ ν) (rest : List (Token τ ν)), tokens = items.render ++ rest ∧ items.Parsed groups allowed rest) ∨
    ItemsOverrun groups allowed tokens

def EntriesOutcome (groups : Groups τ) (members : Finset τ) (tokens : List (Token τ ν)) : Prop :=
  (∃ (entries : Entries τ ν) (rest : List (Token τ ν)), tokens = entries.render ++ rest ∧ entries.Parsed groups members rest) ∨
    EntriesOverrun groups members tokens

theorem field_outcome (groups : Groups τ) (allowed : Option (Finset τ)) (tag : τ) (val : ν) (tail : List (Token τ ν))
    (admitted : Admits allowed tag) (plain : groups tag = none) (later : ItemsOutcome groups (consume allowed tag) tail) :
    ItemsOutcome groups allowed ((tag, val) :: tail) := by
  rcases later with ⟨more, rest, split, parsed⟩ | overrun
  · exact .inl ⟨.field tag val more, rest, by simp [split], ⟨admitted, plain, parsed⟩⟩
  · exact .inr (.field tag val tail admitted plain overrun)

theorem counter_outcome (groups : Groups τ) (allowed : Option (Finset τ)) (tag : τ) (val : ν) (members : Finset τ)
    (tail : List (Token τ ν)) (admitted : Admits allowed tag) (kind : groups tag = some members)
    (inner : EntriesOutcome groups members tail)
    (later : ∀ middle : List (Token τ ν), middle.length ≤ tail.length → ItemsOutcome groups (consume allowed tag) middle) :
    ItemsOutcome groups allowed ((tag, val) :: tail) := by
  by_cases last : tail = []
  · subst last
    exact .inr (.counter tag val admitted (by simp [kind]))
  · rcases inner with ⟨entries, middle, rfl, entriesParsed⟩ | overrun
    · rcases later middle (by simp) with ⟨more, rest, rfl, parsed⟩ | overrun
      · refine .inl ⟨.group tag val entries more, rest, by simp, admitted, ?_, ⟨members, kind, entriesParsed⟩, parsed⟩
        simpa only [List.append_assoc] using last
      · exact .inr (.behind tag val members entries middle admitted kind entriesParsed overrun)
    · exact .inr (.inside tag val members tail admitted kind overrun)

theorem entry_outcome (groups : Groups τ) (members : Finset τ) (tokens : List (Token τ ν)) (first : HeadIn members tokens)
    (inner : ItemsOutcome groups (some members) tokens)
    (later : ∀ middle : List (Token τ ν), middle.length < tokens.length → EntriesOutcome groups members middle) :
    EntriesOutcome groups members tokens := by
  rcases inner with ⟨entry, middle, rfl, entryParsed⟩ | overrun
  · have spent := List.length_pos_iff.mpr (entry_not_nil groups members entry middle first entryParsed)
    rcases later middle (by simpa using spent) with ⟨more, rest, rfl, moreParsed⟩ | overrun
    · refine .inl ⟨.cons entry more, rest, by simp, ?_, entryParsed, moreParsed⟩
      simpa only [List.append_assoc] using first
    · exact .inr (.behind entry middle first entryParsed overrun)
  · exact .inr (.inside tokens first overrun)

-- An entry spends at least one token before the next one is looked for, so the
-- two readings can be found together by induction on the number of tokens.
theorem outcomes (groups : Groups τ) (bound : Nat) :
    (∀ (allowed : Option (Finset τ)) (tokens : List (Token τ ν)), tokens.length ≤ bound → ItemsOutcome groups allowed tokens) ∧
    (∀ (members : Finset τ) (tokens : List (Token τ ν)), tokens.length ≤ bound → EntriesOutcome groups members tokens) := by
  have noItems (allowed : Option (Finset τ)) : ItemsOutcome groups allowed ([] : List (Token τ ν)) :=
    .inl ⟨.nil, [], by simp, by simp [Items.Parsed, Stops]⟩
  have noEntries (members : Finset τ) (tokens : List (Token τ ν)) (foreign : ¬ HeadIn members tokens) :
      EntriesOutcome groups members tokens := .inl ⟨.nil, tokens, by simp, foreign⟩
  induction bound with
  | zero =>
      constructor
      · intro allowed tokens short
        obtain rfl := List.length_eq_zero_iff.mp (Nat.le_zero.mp short)
        exact noItems allowed
      · intro members tokens short
        obtain rfl := List.length_eq_zero_iff.mp (Nat.le_zero.mp short)
        exact noEntries members [] (by simp [HeadIn])
  | succ bound ih =>
      obtain ⟨ihItems, ihEntries⟩ := ih
      have items (allowed : Option (Finset τ)) (tokens : List (Token τ ν)) (short : tokens.length ≤ bound + 1) :
          ItemsOutcome groups allowed tokens := by
        cases tokens with
        | nil => exact noItems allowed
        | cons token tail =>
            obtain ⟨tag, val⟩ := token
            have tailShort : tail.length ≤ bound := by simpa using short
            by_cases admitted : Admits allowed tag
            · cases kind : groups tag with
              | none => exact field_outcome groups allowed tag val tail admitted kind (ihItems _ tail tailShort)
              | some members =>
                  exact counter_outcome groups allowed tag val members tail admitted kind (ihEntries members tail tailShort)
                    fun middle shorter => ihItems _ middle (shorter.trans tailShort)
            · exact .inl ⟨.nil, (tag, val) :: tail, by simp, admitted⟩
      refine ⟨items, fun members tokens short => ?_⟩
      by_cases first : HeadIn members tokens
      · exact entry_outcome groups members tokens first (items (some members) tokens short)
          fun middle shorter => ihEntries members middle (by omega)
      · exact noEntries members tokens first

theorem parsed_or_overrun (groups : Groups τ) (tokens : List (Token τ ν)) :
    (∃ items : Items τ ν, tokens = items.render ∧ items.Parsed groups none []) ∨ ItemsOverrun groups none tokens := by
  rcases (outcomes groups tokens.length).1 none tokens le_rfl with ⟨items, rest, split, parsed⟩ | overrun
  · have finished := parsed_none_rest groups items rest parsed
    subst finished
    exact .inl ⟨items, by simpa using split, parsed⟩
  · exact .inr overrun

theorem exists_items_parsed (groups : Groups τ) (allowed : Option (Finset τ)) (tokens : List (Token τ ν))
    (plain : LastPlain groups tokens) :
    ∃ (items : Items τ ν) (rest : List (Token τ ν)), tokens = items.render ++ rest ∧ items.Parsed groups allowed rest := by
  rcases (outcomes groups tokens.length).1 allowed tokens le_rfl with parsed | overrun
  · exact parsed
  · obtain ⟨token, last, counter⟩ := items_overrun_last groups overrun
    exact False.elim (counter (plain token last))

theorem exists_entries_parsed (groups : Groups τ) (members : Finset τ) (tokens : List (Token τ ν))
    (plain : LastPlain groups tokens) :
    ∃ (entries : Entries τ ν) (rest : List (Token τ ν)), tokens = entries.render ++ rest ∧ entries.Parsed groups members rest := by
  rcases (outcomes groups tokens.length).2 members tokens le_rfl with parsed | overrun
  · exact parsed
  · obtain ⟨token, last, counter⟩ := entries_overrun_last groups overrun
    exact False.elim (counter (plain token last))

theorem exists_parsed (groups : Groups τ) (tokens : List (Token τ ν)) (plain : LastPlain groups tokens) :
    ∃ items : Items τ ν, tokens = items.render ∧ items.Parsed groups none [] := by
  obtain ⟨items, rest, split, parsed⟩ := exists_items_parsed groups none tokens plain
  obtain rfl := parsed_none_rest groups items rest parsed
  exact ⟨items, by simpa using split, parsed⟩

mutual
theorem items_last_plain (groups : Groups τ) (allowed : Option (Finset τ)) (items : Items τ ν) (rest : List (Token τ ν))
    (parsed : items.Parsed groups allowed rest) (plain : LastPlain groups rest) :
    LastPlain groups (items.render ++ rest) := by
  cases items with
  | nil => simpa using plain
  | field tag val more =>
      have later := items_last_plain groups _ more rest parsed.2.2 plain
      simpa using last_plain_cons groups (tag, val) _ later fun _ => parsed.2.1
  | group tag val entries more =>
      obtain ⟨_, next, ⟨members, _, entriesParsed⟩, moreParsed⟩ := parsed
      have later := entries_last_plain groups members entries _ entriesParsed
        (items_last_plain groups _ more rest moreParsed plain)
      simpa [List.append_assoc] using last_plain_cons groups (tag, val) _ later
        fun none => absurd none (by simpa [List.append_assoc] using next)
theorem entries_last_plain (groups : Groups τ) (members : Finset τ) (entries : Entries τ ν) (rest : List (Token τ ν))
    (parsed : entries.Parsed groups members rest) (plain : LastPlain groups rest) :
    LastPlain groups (entries.render ++ rest) := by
  cases entries with
  | nil => simpa using plain
  | cons entry more =>
      obtain ⟨_, entryParsed, moreParsed⟩ := parsed
      have later := entries_last_plain groups members more rest moreParsed plain
      simpa [List.append_assoc] using items_last_plain groups _ entry _ entryParsed later
end

theorem parsed_iff_last_plain (groups : Groups τ) (tokens : List (Token τ ν)) :
    (∃ items : Items τ ν, tokens = items.render ∧ items.Parsed groups none []) ↔ LastPlain groups tokens := by
  constructor
  · rintro ⟨items, rfl, parsed⟩
    simpa using items_last_plain groups none items [] parsed (fun token absent => by simp at absent)
  · exact exists_parsed groups tokens

mutual
theorem items_fields_filter (groups : Groups τ) (allowed : Option (Finset τ)) (items : Items τ ν)
    (rest : List (Token τ ν)) (parsed : items.Parsed groups allowed rest) :
    items.fields = items.render.filter fun token => (groups token.1).isNone := by
  cases items with
  | nil => simp [Items.fields]
  | field tag val more =>
      obtain ⟨_, plain, moreParsed⟩ := parsed
      simp [Items.fields, plain, items_fields_filter groups _ more rest moreParsed]
  | group tag val entries more =>
      obtain ⟨_, _, ⟨members, counter, entriesParsed⟩, moreParsed⟩ := parsed
      simp [Items.fields, counter, entries_fields_filter groups members entries _ entriesParsed,
        items_fields_filter groups _ more rest moreParsed]
theorem entries_fields_filter (groups : Groups τ) (members : Finset τ) (entries : Entries τ ν)
    (rest : List (Token τ ν)) (parsed : entries.Parsed groups members rest) :
    entries.fields = entries.render.filter fun token => (groups token.1).isNone := by
  cases entries with
  | nil => simp [Entries.fields]
  | cons entry more =>
      obtain ⟨_, entryParsed, moreParsed⟩ := parsed
      simp [Entries.fields, items_fields_filter groups _ entry _ entryParsed,
        entries_fields_filter groups members more rest moreParsed]
end

mutual
def Items.Shaped (groups : Groups τ) : Items τ ν → Prop
  | .nil => True
  | .field tag _ more => groups tag = none ∧ more.Shaped groups
  | .group tag _ entries more =>
      (∃ members, groups tag = some members ∧ entries.Shaped groups members) ∧ more.Shaped groups
def Entries.Shaped (groups : Groups τ) (members : Finset τ) : Entries τ ν → Prop
  | .nil => True
  | .cons entry more =>
      entry.tags ≠ [] ∧ entry.tags.Nodup ∧ (∀ tag ∈ entry.tags, tag ∈ members) ∧
        entry.Shaped groups ∧ more.Shaped groups members
end

theorem spent_tags (set : Finset τ) (tag : τ) (tags : List τ) (admitted : Admits (some set) tag)
    (later : tags.Nodup ∧ ∀ other ∈ tags, other ∈ set.erase tag) :
    (tag :: tags).Nodup ∧ ∀ other ∈ tag :: tags, other ∈ set := by
  obtain ⟨distinct, inside⟩ := later
  constructor
  · refine List.nodup_cons.mpr ⟨fun again => ?_, distinct⟩
    exact (Finset.mem_erase.mp (inside tag again)).1 rfl
  · intro other member
    rcases List.mem_cons.mp member with same | later
    · simpa [same] using admitted
    · exact Finset.mem_of_mem_erase (inside other later)

theorem parsed_tags (groups : Groups τ) (set : Finset τ) (items : Items τ ν) (rest : List (Token τ ν))
    (parsed : items.Parsed groups (some set) rest) : items.tags.Nodup ∧ ∀ tag ∈ items.tags, tag ∈ set := by
  cases items with
  | nil => simp [Items.tags]
  | field tag val more => exact spent_tags set tag more.tags parsed.1 (parsed_tags groups _ more rest parsed.2.2)
  | group tag val entries more =>
      exact spent_tags set tag more.tags parsed.1 (parsed_tags groups _ more rest parsed.2.2.2)

mutual
theorem parsed_shaped (groups : Groups τ) (allowed : Option (Finset τ)) (items : Items τ ν)
    (rest : List (Token τ ν)) (parsed : items.Parsed groups allowed rest) : items.Shaped groups := by
  cases items with
  | nil => trivial
  | field tag val more => exact ⟨parsed.2.1, parsed_shaped groups _ more rest parsed.2.2⟩
  | group tag val entries more =>
      obtain ⟨_, _, ⟨members, counter, entriesParsed⟩, moreParsed⟩ := parsed
      exact ⟨⟨members, counter, parsed_entries_shaped groups members entries _ entriesParsed⟩,
        parsed_shaped groups _ more rest moreParsed⟩
theorem parsed_entries_shaped (groups : Groups τ) (members : Finset τ) (entries : Entries τ ν)
    (rest : List (Token τ ν)) (parsed : entries.Parsed groups members rest) : entries.Shaped groups members := by
  cases entries with
  | nil => trivial
  | cons entry more =>
      obtain ⟨first, entryParsed, moreParsed⟩ := parsed
      obtain ⟨distinct, inside⟩ := parsed_tags groups members entry _ entryParsed
      have consumed := entry_not_nil groups members entry (more.render ++ rest)
        (by simpa only [List.append_assoc] using first) entryParsed
      exact ⟨mt (tags_nil_iff entry).mp consumed, distinct, inside,
        parsed_shaped groups _ entry _ entryParsed, parsed_entries_shaped groups members more rest moreParsed⟩
end

-- What makes the unwritten boundaries readable: a group has an entry, an entry
-- after the first opens with a tag the entry before it has spent, and the token
-- after a whole group is foreign to the group.
def Entries.Chained : Entries τ ν → Prop
  | .nil => True
  | .cons _ .nil => True
  | .cons entry (.cons next more) => (∃ tag ∈ next.tags.head?, tag ∈ entry.tags) ∧ (Entries.cons next more).Chained

mutual
def Items.Separated (groups : Groups τ) : Items τ ν → List (Token τ ν) → Prop
  | .nil, _ => True
  | .field _ _ more, rest => more.Separated groups rest
  | .group tag _ entries more, rest =>
      entries ≠ .nil ∧ entries.Chained ∧ (∀ members, groups tag = some members → ¬ HeadIn members (more.render ++ rest)) ∧
        entries.Separated groups (more.render ++ rest) ∧ more.Separated groups rest
def Entries.Separated (groups : Groups τ) : Entries τ ν → List (Token τ ν) → Prop
  | .nil, _ => True
  | .cons entry more, rest => entry.Separated groups (more.render ++ rest) ∧ more.Separated groups rest
end

def spend (allowed : Option (Finset τ)) (tags : List τ) : Option (Finset τ) := allowed.map fun set => set \ tags.toFinset

theorem spend_cons (allowed : Option (Finset τ)) (tag : τ) (tags : List τ) :
    spend allowed (tag :: tags) = spend (consume allowed tag) tags := by
  cases allowed with
  | none => rfl
  | some set =>
      simp only [spend, consume, Option.map_some, Option.some.injEq]
      ext other
      simp only [List.toFinset_cons, Finset.mem_sdiff, Finset.mem_insert, List.mem_toFinset, Finset.mem_erase]
      tauto

theorem affords_cons (allowed : Option (Finset τ)) (tag : τ) (tags : List τ) (affords : Affords allowed (tag :: tags)) :
    Admits allowed tag ∧ Affords (consume allowed tag) tags := by
  cases allowed with
  | none => exact ⟨admits_none tag, fun set absent => by simp at absent⟩
  | some set =>
      obtain ⟨distinct, inside⟩ := affords set rfl
      obtain ⟨fresh, restDistinct⟩ := List.nodup_cons.mp distinct
      refine ⟨(admits_some set tag).mpr (inside tag (by simp)), ?_⟩
      intro smaller same
      obtain rfl : set.erase tag = smaller := by simpa using same
      refine ⟨restDistinct, fun other member => Finset.mem_erase.mpr ⟨?_, inside other (by simp [member])⟩⟩
      rintro rfl
      exact fresh member

theorem foreign_stops (members : Finset τ) (tags : List τ) (rest : List (Token τ ν)) (foreign : ¬ HeadIn members rest) :
    Stops (spend (some members) tags) rest := by
  cases rest with
  | nil => trivial
  | cons token tail =>
      intro admitted
      have inside := (admits_some _ _).mp admitted
      exact foreign (Finset.mem_sdiff.mp inside).1

theorem spent_stops (members : Finset τ) (tags : List τ) (tag : τ) (val : ν) (tail : List (Token τ ν))
    (spent : tag ∈ tags) : Stops (spend (some members) tags) ((tag, val) :: tail) := by
  intro admitted
  have inside := (admits_some _ _).mp admitted
  exact (Finset.mem_sdiff.mp inside).2 (by simpa using spent)

mutual
theorem separated_parsed (groups : Groups τ) (allowed : Option (Finset τ)) (items : Items τ ν)
    (rest : List (Token τ ν)) (shaped : items.Shaped groups) (separated : items.Separated groups rest)
    (affords : Affords allowed items.tags) (stops : Stops (spend allowed items.tags) rest) :
    items.Parsed groups allowed rest := by
  cases items with
  | nil =>
      cases allowed with
      | none => exact stops
      | some set => simpa [spend, Items.tags, Items.Parsed] using stops
  | field tag val more =>
      obtain ⟨admitted, moreAffords⟩ := affords_cons allowed tag more.tags affords
      have moreStops : Stops (spend (consume allowed tag) more.tags) rest := by
        rw [← spend_cons]
        exact stops
      exact ⟨admitted, shaped.1, separated_parsed groups _ more rest shaped.2 separated moreAffords moreStops⟩
  | group tag val entries more =>
      obtain ⟨⟨members, counter, entriesShaped⟩, moreShaped⟩ := shaped
      obtain ⟨present, chained, foreign, entriesSeparated, moreSeparated⟩ := separated
      obtain ⟨admitted, moreAffords⟩ := affords_cons allowed tag more.tags affords
      have moreStops : Stops (spend (consume allowed tag) more.tags) rest := by
        rw [← spend_cons]
        exact stops
      refine ⟨admitted, ?_, ⟨members, counter, ?_⟩,
        separated_parsed groups _ more rest moreShaped moreSeparated moreAffords moreStops⟩
      · cases entries with
        | nil => exact False.elim (present rfl)
        | cons entry others =>
            have consumed := mt (tags_nil_iff entry).mpr entriesShaped.1
            simp [consumed]
      · exact separated_entries_parsed groups members entries _ entriesShaped chained entriesSeparated
          (foreign members counter)
theorem separated_entries_parsed (groups : Groups τ) (members : Finset τ) (entries : Entries τ ν)
    (rest : List (Token τ ν)) (shaped : entries.Shaped groups members) (chained : entries.Chained)
    (separated : entries.Separated groups rest) (foreign : ¬ HeadIn members rest) :
    entries.Parsed groups members rest := by
  cases entries with
  | nil => exact foreign
  | cons entry more =>
      obtain ⟨filled, distinct, inside, entryShaped, moreShaped⟩ := shaped
      obtain ⟨entrySeparated, moreSeparated⟩ := separated
      have moreChained : more.Chained := by
        cases more with
        | nil => trivial
        | cons => exact chained.2
      have entryStops : Stops (spend (some members) entry.tags) (more.render ++ rest) := by
        cases more with
        | nil => simpa using foreign_stops members entry.tags rest foreign
        | cons next others =>
            obtain ⟨tag, first, spent⟩ := chained.1
            obtain ⟨val, tail, opens⟩ := render_head_tag next tag first
            simpa [opens] using spent_stops members entry.tags tag val _ spent
      refine ⟨?_, separated_parsed groups _ entry _ entryShaped entrySeparated
        (entry_affords members entry distinct inside) entryStops,
        separated_entries_parsed groups members more rest moreShaped moreChained moreSeparated foreign⟩
      obtain ⟨tag, first⟩ : ∃ tag, tag ∈ entry.tags.head? := by
        cases tags : entry.tags with
        | nil => exact False.elim (filled tags)
        | cons tag tail => exact ⟨tag, by simp⟩
      obtain ⟨val, tail, opens⟩ := render_head_tag entry tag first
      simpa [opens, HeadIn] using inside tag (List.mem_of_mem_head? first)
end

end Libx.Counted

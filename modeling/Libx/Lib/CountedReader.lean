import Libx.Lib.Counted
import Libx.Lib.Fallible

set_option autoImplicit false

namespace Libx.Counted

variable {τ ν σ ε : Type}

structure Source (τ ν ε : Type) where
  size : Nat
  token : Nat → Except ε (Token τ ν)
  fuel : ε

def Source.refresh (source : Source τ ν ε) (pos : Nat) (next : Token τ ν) : Except ε (Token τ ν) :=
  if pos < source.size then source.token pos else .ok next

-- What a reader does with the items: the state of an entry is opened from the
-- state around it and folded back into it when the entry ends.
structure Builder (τ ν σ : Type) where
  field : σ → Token τ ν → σ
  enter : σ → Token τ ν → σ
  leave : σ → Token τ ν → σ → σ

mutual
def Builder.items (builder : Builder τ ν σ) : Items τ ν → σ → σ
  | .nil, state => state
  | .field tag val more, state => builder.items more (builder.field state (tag, val))
  | .group tag val entries more, state => builder.items more (builder.entries (tag, val) entries state)
def Builder.entries (builder : Builder τ ν σ) (counter : Token τ ν) : Entries τ ν → σ → σ
  | .nil, state => state
  | .cons entry more, state =>
      builder.entries counter more (builder.leave state counter (builder.items entry (builder.enter state counter)))
end

variable [DecidableEq τ]

-- A reader by index with one token of look-ahead. An entry is read by the same
-- loop with a fresh copy of the group's members, the tags it may still spend.
mutual
def readItems (source : Source τ ν ε) (builder : Builder τ ν σ) (groups : Groups τ) :
    Nat → σ → Nat → Option (Finset τ) → Except ε (σ × Nat)
  | 0, _, _, _ => .error source.fuel
  | fuel + 1, state, inc, allowed =>
      if inc < source.size then do
        let token ← source.token inc
        if allowed.any (token.1 ∉ ·) then
          return (state, inc)
        else
          match groups token.1 with
          | some members =>
              let next ← source.token (inc + 1)
              if inc + 1 < source.size ∧ next.1 ∈ members then do
                let (state, inc) ← readEntries source builder groups token members fuel state (inc + 1) next
                readItems source builder groups fuel state inc (consume allowed token.1)
              else readItems source builder groups fuel state (inc + 1) (consume allowed token.1)
          | none => readItems source builder groups fuel (builder.field state token) (inc + 1) (consume allowed token.1)
      else .ok (state, inc)
def readEntries (source : Source τ ν ε) (builder : Builder τ ν σ) (groups : Groups τ) (counter : Token τ ν)
    (members : Finset τ) : Nat → σ → Nat → Token τ ν → Except ε (σ × Nat)
  | 0, _, _, _ => .error source.fuel
  | fuel + 1, state, pos, next =>
      if pos < source.size ∧ next.1 ∈ members then do
        let (inner, inc) ← readItems source builder groups fuel (builder.enter state counter) pos (some members)
        let next ← source.refresh inc next
        readEntries source builder groups counter members fuel (builder.leave state counter inner) inc next
      else .ok (state, pos)
end

def Ahead (source : Source τ ν ε) : Nat → List (Token τ ν) → Prop
  | inc, [] => inc = source.size
  | inc, token :: tail => inc < source.size ∧ source.token inc = .ok token ∧ Ahead source (inc + 1) tail

omit [DecidableEq τ] in
theorem ahead_append (source : Source τ ν ε) (inc : Nat) (front back : List (Token τ ν))
    (ahead : Ahead source inc (front ++ back)) : Ahead source (inc + front.length) back := by
  induction front generalizing inc with
  | nil => exact ahead
  | cons token tail ih =>
      have later := ih (inc + 1) ahead.2.2
      simpa [Nat.add_assoc, Nat.add_comm 1] using later

omit [DecidableEq τ] in
theorem ahead_length (source : Source τ ν ε) (inc : Nat) (tokens : List (Token τ ν)) (ahead : Ahead source inc tokens) :
    inc + tokens.length = source.size := by
  have finished : inc + tokens.length = source.size := ahead_append source inc tokens [] (by simpa using ahead)
  exact finished

omit [DecidableEq τ] in
theorem ahead_drop (source : Source τ ν ε) (tokens : List (Token τ ν)) (inc : Nat) (ahead : Ahead source 0 tokens)
    (within : inc ≤ tokens.length) : Ahead source inc (tokens.drop inc) := by
  have later := ahead_append source 0 (tokens.take inc) (tokens.drop inc) (by simpa using ahead)
  simpa [Nat.min_eq_left within] using later

def LooksAt (next : Token τ ν) (tokens : List (Token τ ν)) : Prop := ∀ token, tokens.head? = some token → next = token

omit [DecidableEq τ] in
theorem looks_at_head (token : Token τ ν) (tail : List (Token τ ν)) : LooksAt token (token :: tail) := by
  intro other same
  simpa using same

omit [DecidableEq τ] in
theorem head_in_cons (members : Finset τ) (tokens : List (Token τ ν)) (first : HeadIn members tokens) :
    ∃ next tail, tokens = next :: tail ∧ next.1 ∈ members := by
  cases tokens with
  | nil => exact False.elim first
  | cons next tail => exact ⟨next, tail, rfl, first⟩

theorem not_admitted_any (allowed : Option (Finset τ)) (tag : τ) : allowed.any (tag ∉ ·) = true ↔ ¬ Admits allowed tag := by
  cases allowed <;> simp

section Turns

variable (source : Source τ ν ε) (builder : Builder τ ν σ) (groups : Groups τ)

theorem items_stop (fuel : Nat) (state : σ) (inc : Nat) (allowed : Option (Finset τ)) (rest : List (Token τ ν))
    (ahead : Ahead source inc rest) (stops : Stops allowed rest) :
    readItems source builder groups (fuel + 1) state inc allowed = .ok (state, inc) := by
  cases rest with
  | nil =>
      have finished : ¬ inc < source.size := by
        have : inc = source.size := ahead
        omega
      rw [readItems, if_neg finished]
  | cons token tail =>
      obtain ⟨bound, read, _⟩ := ahead
      have blocked := (not_admitted_any allowed token.1).mpr stops
      simp only [readItems, if_pos bound, read, Fallible.ok_bind, if_pos blocked, Fallible.pure_eq_ok]

theorem items_field (fuel : Nat) (state : σ) (inc : Nat) (allowed : Option (Finset τ)) (token : Token τ ν)
    (tail : List (Token τ ν)) (ahead : Ahead source inc (token :: tail)) (admitted : Admits allowed token.1)
    (plain : groups token.1 = none) :
    readItems source builder groups (fuel + 1) state inc allowed =
      readItems source builder groups fuel (builder.field state token) (inc + 1) (consume allowed token.1) := by
  obtain ⟨bound, read, _⟩ := ahead
  have admits : ¬ allowed.any (token.1 ∉ ·) = true := fun blocked => (not_admitted_any allowed _).mp blocked admitted
  simp only [readItems, if_pos bound, read, Fallible.ok_bind, if_neg admits, plain]

theorem items_counter_last (fault : ε) (overruns : source.token source.size = .error fault) (fuel : Nat) (state : σ)
    (inc : Nat) (allowed : Option (Finset τ)) (token : Token τ ν) (ahead : Ahead source inc [token])
    (admitted : Admits allowed token.1) (counter : groups token.1 ≠ none) :
    readItems source builder groups (fuel + 1) state inc allowed = .error fault := by
  obtain ⟨bound, read, last⟩ := ahead
  have admits : ¬ allowed.any (token.1 ∉ ·) = true := fun blocked => (not_admitted_any allowed _).mp blocked admitted
  obtain ⟨members, kind⟩ := Option.ne_none_iff_exists'.mp counter
  have behind : source.token (inc + 1) = .error fault := by rw [show inc + 1 = source.size from last, overruns]
  simp only [readItems, if_pos bound, read, Fallible.ok_bind, if_neg admits, kind, behind, Fallible.error_bind]

theorem items_counter (fuel : Nat) (state : σ) (inc : Nat) (allowed : Option (Finset τ)) (token : Token τ ν)
    (members : Finset τ) (next : Token τ ν) (tail : List (Token τ ν)) (ahead : Ahead source inc (token :: next :: tail))
    (admitted : Admits allowed token.1) (kind : groups token.1 = some members) :
    readItems source builder groups (fuel + 1) state inc allowed =
      if next.1 ∈ members then
        readEntries source builder groups token members fuel state (inc + 1) next >>= fun made =>
          readItems source builder groups fuel made.1 made.2 (consume allowed token.1)
      else readItems source builder groups fuel state (inc + 1) (consume allowed token.1) := by
  obtain ⟨bound, read, nextBound, nextRead, _⟩ := ahead
  have admits : ¬ allowed.any (token.1 ∉ ·) = true := fun blocked => (not_admitted_any allowed _).mp blocked admitted
  simp only [readItems, if_pos bound, read, Fallible.ok_bind, if_neg admits, kind, nextRead, nextBound, true_and]

theorem entries_turn (fuel : Nat) (state : σ) (pos : Nat) (counter : Token τ ν) (members : Finset τ) (next : Token τ ν)
    (tail : List (Token τ ν)) (ahead : Ahead source pos (next :: tail)) (inside : next.1 ∈ members) :
    readEntries source builder groups counter members (fuel + 1) state pos next =
      readItems source builder groups fuel (builder.enter state counter) pos (some members) >>= fun made =>
        source.refresh made.2 next >>= fun next =>
          readEntries source builder groups counter members fuel (builder.leave state counter made.1) made.2 next := by
  have enters : pos < source.size ∧ next.1 ∈ members := ⟨ahead.1, inside⟩
  simp only [readEntries, if_pos enters]

theorem entries_leave (fuel : Nat) (state : σ) (pos : Nat) (counter : Token τ ν) (members : Finset τ) (next : Token τ ν)
    (rest : List (Token τ ν)) (ahead : Ahead source pos rest) (looks : LooksAt next rest) (foreign : ¬ HeadIn members rest) :
    readEntries source builder groups counter members (fuel + 1) state pos next = .ok (state, pos) := by
  have leaves : ¬ (pos < source.size ∧ next.1 ∈ members) := by
    rintro ⟨bound, inside⟩
    cases rest with
    | nil =>
        have : pos = source.size := ahead
        omega
    | cons token tail =>
        obtain rfl := looks token rfl
        exact foreign inside
  simp only [readEntries, if_neg leaves]

omit [DecidableEq τ] in
theorem next_look (inc : Nat) (next : Token τ ν) (rest : List (Token τ ν)) (ahead : Ahead source inc rest) :
    ∃ fresh, source.refresh inc next = .ok fresh ∧ LooksAt fresh rest := by
  cases rest with
  | nil =>
      have finished : ¬ inc < source.size := by
        have : inc = source.size := ahead
        omega
      exact ⟨next, if_neg finished, fun token absent => by simp at absent⟩
  | cons token tail => exact ⟨token, by rw [Source.refresh, if_pos ahead.1, ahead.2.1], looks_at_head token tail⟩

theorem entries_step (fuel : Nat) (state : σ) (pos : Nat) (counter : Token τ ν) (members : Finset τ) (next : Token τ ν)
    (entry : Items τ ν) (rest : List (Token τ ν)) (ahead : Ahead source pos (entry.render ++ rest))
    (looks : LooksAt next (entry.render ++ rest)) (first : HeadIn members (entry.render ++ rest))
    (made : readItems source builder groups fuel (builder.enter state counter) pos (some members) =
      .ok (builder.items entry (builder.enter state counter), pos + entry.render.length)) :
    ∃ fresh, LooksAt fresh rest ∧
      readEntries source builder groups counter members (fuel + 1) state pos next =
        readEntries source builder groups counter members fuel
          (builder.leave state counter (builder.items entry (builder.enter state counter)))
          (pos + entry.render.length) fresh := by
  obtain ⟨head, tail, shape, inside⟩ := head_in_cons members _ first
  obtain rfl := looks head (by simp [shape])
  obtain ⟨fresh, read, freshLooks⟩ := next_look source (pos + entry.render.length) next rest
    (ahead_append source pos entry.render rest ahead)
  refine ⟨fresh, freshLooks, ?_⟩
  rw [entries_turn source builder groups fuel state pos counter members next tail (shape ▸ ahead) inside, made]
  simp only [Fallible.ok_bind, read]

theorem counter_step (fuel : Nat) (state : σ) (inc : Nat) (allowed : Option (Finset τ)) (counter : Token τ ν)
    (members : Finset τ) (entries : Entries τ ν) (rest : List (Token τ ν))
    (ahead : Ahead source inc (counter :: (entries.render ++ rest))) (admitted : Admits allowed counter.1)
    (kind : groups counter.1 = some members) (following : entries.render ++ rest ≠ [])
    (parsed : entries.Parsed groups members rest)
    (made : ∀ next, LooksAt next (entries.render ++ rest) →
      readEntries source builder groups counter members fuel state (inc + 1) next =
        .ok (builder.entries counter entries state, inc + 1 + entries.render.length)) :
    readItems source builder groups (fuel + 1) state inc allowed =
      readItems source builder groups fuel (builder.entries counter entries state) (inc + 1 + entries.render.length)
        (consume allowed counter.1) := by
  obtain ⟨first, tail, shape⟩ := List.exists_cons_of_ne_nil following
  rw [items_counter source builder groups fuel state inc allowed counter members first tail (shape ▸ ahead) admitted kind]
  by_cases inside : first.1 ∈ members
  · rw [if_pos inside, made first (shape ▸ looks_at_head first tail)]
    rfl
  · have bare : entries = .nil := by
      cases entries with
      | nil => rfl
      | cons entry more =>
          have starts := parsed.1
          rw [← entries_render_cons, shape] at starts
          exact False.elim (inside starts)
    subst bare
    rw [if_neg inside]
    simp [Builder.entries]

mutual
theorem read_parsed (fuel : Nat) (state : σ) (inc : Nat) (allowed : Option (Finset τ)) (items : Items τ ν)
    (rest : List (Token τ ν)) (parsed : items.Parsed groups allowed rest)
    (ahead : Ahead source inc (items.render ++ rest)) (enough : 2 * items.render.length + 1 ≤ fuel) :
    readItems source builder groups fuel state inc allowed =
      .ok (builder.items items state, inc + items.render.length) := by
  obtain ⟨fuel, rfl⟩ : ∃ less, fuel = less + 1 := ⟨fuel - 1, by omega⟩
  cases items with
  | nil =>
      simpa [Builder.items] using items_stop source builder groups fuel state inc allowed rest (by simpa using ahead) parsed
  | field tag val more =>
      obtain ⟨admitted, plain, moreParsed⟩ := parsed
      have here : Ahead source inc ((tag, val) :: (more.render ++ rest)) := by simpa using ahead
      simp only [items_render_field, List.length_cons] at enough
      rw [items_field source builder groups fuel state inc allowed (tag, val) _ here admitted plain,
        read_parsed fuel _ (inc + 1) _ more rest moreParsed here.2.2 (by omega)]
      simp [Builder.items, Nat.add_assoc, Nat.add_comm 1]
  | group tag val entries more =>
      obtain ⟨admitted, following, ⟨members, kind, entriesParsed⟩, moreParsed⟩ := parsed
      have here : Ahead source inc ((tag, val) :: (entries.render ++ (more.render ++ rest))) := by simpa using ahead
      simp only [items_render_group, List.length_cons, List.length_append] at enough
      rw [counter_step source builder groups fuel state inc allowed (tag, val) members entries (more.render ++ rest) here
          admitted kind (by simpa [List.append_assoc] using following) entriesParsed fun next looks =>
            read_entries_parsed fuel state (inc + 1) (tag, val) members next entries _ entriesParsed here.2.2 looks (by omega),
        read_parsed fuel _ _ _ more rest moreParsed (ahead_append source _ entries.render _ here.2.2) (by omega)]
      simp only [Builder.items, items_render_group, List.length_cons, List.length_append, Except.ok.injEq, Prod.mk.injEq,
        true_and]
      omega
theorem read_entries_parsed (fuel : Nat) (state : σ) (pos : Nat) (counter : Token τ ν) (members : Finset τ)
    (next : Token τ ν) (entries : Entries τ ν) (rest : List (Token τ ν)) (parsed : entries.Parsed groups members rest)
    (ahead : Ahead source pos (entries.render ++ rest)) (looks : LooksAt next (entries.render ++ rest))
    (enough : 2 * entries.render.length + 2 ≤ fuel) :
    readEntries source builder groups counter members fuel state pos next =
      .ok (builder.entries counter entries state, pos + entries.render.length) := by
  obtain ⟨fuel, rfl⟩ : ∃ less, fuel = less + 1 := ⟨fuel - 1, by omega⟩
  cases entries with
  | nil =>
      simpa [Builder.entries] using entries_leave source builder groups fuel state pos counter members next rest
        (by simpa using ahead) (by simpa using looks) parsed
  | cons entry more =>
      obtain ⟨first, entryParsed, moreParsed⟩ := parsed
      rw [entries_render_cons, List.append_assoc] at ahead looks
      rw [List.append_assoc] at first
      simp only [entries_render_cons, List.length_append] at enough
      have spent := List.length_pos_iff.mpr (entry_not_nil groups members entry _ first entryParsed)
      obtain ⟨fresh, freshLooks, turn⟩ := entries_step source builder groups fuel state pos counter members next entry
        (more.render ++ rest) ahead looks first
        (read_parsed fuel _ pos (some members) entry _ entryParsed ahead (by omega))
      rw [turn, read_entries_parsed fuel _ _ counter members fresh more rest moreParsed
        (ahead_append source _ entry.render _ ahead) freshLooks (by omega)]
      simp [Builder.entries, Nat.add_assoc]
end

mutual
theorem read_overrun (fault : ε) (overruns : source.token source.size = .error fault) : ∀ {allowed : Option (Finset τ)} {tokens : List (Token τ ν)},
    ItemsOverrun groups allowed tokens → ∀ (fuel : Nat) (state : σ) (inc : Nat),
    Ahead source inc tokens → 2 * tokens.length + 1 ≤ fuel →
    readItems source builder groups fuel state inc allowed = .error fault
  | allowed, _, .counter tag val admitted kind, fuel, state, inc, ahead, enough => by
      obtain ⟨fuel, rfl⟩ : ∃ less, fuel = less + 1 := ⟨fuel - 1, by omega⟩
      exact items_counter_last source builder groups fault overruns fuel state inc allowed (tag, val) ahead admitted kind
  | allowed, _, .field tag val tail admitted kind later, fuel, state, inc, ahead, enough => by
      obtain ⟨fuel, rfl⟩ : ∃ less, fuel = less + 1 := ⟨fuel - 1, by omega⟩
      simp only [List.length_cons] at enough
      rw [items_field source builder groups fuel state inc allowed (tag, val) tail ahead admitted kind]
      exact read_overrun fault overruns later fuel _ (inc + 1) ahead.2.2 (by omega)
  | allowed, _, .inside tag val members tail admitted kind within, fuel, state, inc, ahead, enough => by
      obtain ⟨fuel, rfl⟩ : ∃ less, fuel = less + 1 := ⟨fuel - 1, by omega⟩
      simp only [List.length_cons] at enough
      obtain ⟨next, others, rfl, inside⟩ := head_in_cons members tail (entries_overrun_head groups within)
      rw [items_counter source builder groups fuel state inc allowed (tag, val) members next others ahead admitted kind,
        if_pos inside, read_entries_overrun fault overruns within fuel state (inc + 1) (tag, val) next ahead.2.2
          (looks_at_head next others) (by omega)]
      rfl
  | allowed, _, .behind tag val members entries rest admitted kind parsed later, fuel, state, inc, ahead, enough => by
      obtain ⟨fuel, rfl⟩ : ∃ less, fuel = less + 1 := ⟨fuel - 1, by omega⟩
      simp only [List.length_cons, List.length_append] at enough
      have following : entries.render ++ rest ≠ [] := by simp [overrun_nonempty groups later]
      rw [counter_step source builder groups fuel state inc allowed (tag, val) members entries rest ahead admitted kind
        following parsed fun next looks =>
          read_entries_parsed source builder groups fuel state (inc + 1) (tag, val) members next entries rest parsed
            ahead.2.2 looks (by omega)]
      exact read_overrun fault overruns later fuel _ _ (ahead_append source _ entries.render rest ahead.2.2) (by omega)
theorem read_entries_overrun (fault : ε) (overruns : source.token source.size = .error fault) : ∀ {members : Finset τ} {tokens : List (Token τ ν)},
    EntriesOverrun groups members tokens → ∀ (fuel : Nat) (state : σ) (pos : Nat) (counter next : Token τ ν),
    Ahead source pos tokens → LooksAt next tokens → 2 * tokens.length + 2 ≤ fuel →
    readEntries source builder groups counter members fuel state pos next = .error fault
  | members, _, .inside tokens first within, fuel, state, pos, counter, next, ahead, looks, enough => by
      obtain ⟨fuel, rfl⟩ : ∃ less, fuel = less + 1 := ⟨fuel - 1, by omega⟩
      obtain ⟨head, tail, rfl, inside⟩ := head_in_cons members tokens first
      obtain rfl := looks head rfl
      rw [entries_turn source builder groups fuel state pos counter members next tail ahead inside,
        read_overrun fault overruns within fuel _ pos ahead (by omega)]
      rfl
  | members, _, .behind entry rest first parsed later, fuel, state, pos, counter, next, ahead, looks, enough => by
      obtain ⟨fuel, rfl⟩ : ∃ less, fuel = less + 1 := ⟨fuel - 1, by omega⟩
      simp only [List.length_append] at enough
      have spent := List.length_pos_iff.mpr (entry_not_nil groups members entry rest first parsed)
      obtain ⟨fresh, freshLooks, turn⟩ := entries_step source builder groups fuel state pos counter members next entry rest
        ahead looks first (read_parsed source builder groups fuel _ pos (some members) entry rest parsed ahead (by omega))
      rw [turn]
      exact read_entries_overrun fault overruns later fuel _ _ counter fresh (ahead_append source _ entry.render rest ahead) freshLooks
        (by omega)
end

theorem read_behind_end (fault : ε) (overruns : source.token source.size = .error fault) (tokens : List (Token τ ν))
    (counter : ¬ LastPlain groups tokens) (fuel : Nat) (state : σ) (ahead : Ahead source 0 tokens)
    (enough : 2 * tokens.length + 1 ≤ fuel) : readItems source builder groups fuel state 0 none = .error fault := by
  cases parsed_or_overrun groups tokens with
  | inl parsed => exact absurd ((parsed_iff_last_plain groups tokens).mp parsed) counter
  | inr overrun => exact read_overrun source builder groups fault overruns overrun fuel state 0 ahead enough

theorem read_advances (state : σ) (inc : Nat) (allowed : Option (Finset τ)) (tokens : List (Token τ ν))
    (plain : LastPlain groups tokens) (ahead : Ahead source inc tokens) :
    ∃ made r, (∀ fuel, 2 * tokens.length + 1 ≤ fuel → readItems source builder groups fuel state inc allowed = .ok (made, r)) ∧
      inc ≤ r ∧ r ≤ source.size ∧ (allowed = none → r = source.size) ∧
      ∀ set, allowed = some set → HeadIn set tokens → inc < r := by
  obtain ⟨items, rest, rfl, parsed⟩ := exists_items_parsed groups allowed tokens plain
  have size := ahead_length source inc _ ahead
  rw [List.length_append] at size
  refine ⟨builder.items items state, inc + items.render.length, ?_, by omega, by omega, ?_, ?_⟩
  · intro fuel enough
    rw [List.length_append] at enough
    exact read_parsed source builder groups fuel state inc allowed items rest parsed ahead (by omega)
  · rintro rfl
    obtain rfl := parsed_none_rest groups items rest parsed
    simpa using size
  · rintro set rfl first
    have spent := List.length_pos_iff.mpr (entry_not_nil groups set items rest first parsed)
    omega

theorem read_entries_advances (state : σ) (pos : Nat) (counter : Token τ ν) (members : Finset τ) (next : Token τ ν)
    (tokens : List (Token τ ν)) (plain : LastPlain groups tokens) (ahead : Ahead source pos tokens)
    (looks : LooksAt next tokens) :
    ∃ made r, (∀ fuel, 2 * tokens.length + 2 ≤ fuel →
        readEntries source builder groups counter members fuel state pos next = .ok (made, r)) ∧
      pos ≤ r ∧ r ≤ source.size ∧ (HeadIn members tokens → pos < r) := by
  obtain ⟨entries, rest, rfl, parsed⟩ := exists_entries_parsed groups members tokens plain
  have size := ahead_length source pos _ ahead
  rw [List.length_append] at size
  refine ⟨builder.entries counter entries state, pos + entries.render.length, ?_, by omega, by omega, ?_⟩
  · intro fuel enough
    rw [List.length_append] at enough
    exact read_entries_parsed source builder groups fuel state pos counter members next entries rest parsed ahead looks (by omega)
  · intro first
    have spent := List.length_pos_iff.mpr (entries_not_nil groups members entries rest first parsed)
    omega

end Turns

end Libx.Counted

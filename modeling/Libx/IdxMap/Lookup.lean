import Libx.Lib.Fallible
import Libx.Lib.Sequences
import Libx.Text
import Mathlib.Algebra.Group.Nat.Defs
import Mathlib.Logic.Function.Basic

set_option autoImplicit false

namespace Libx.Pbx

open Fallible Sequences

inductive Fault where
  | outOfRange
  | lengthError
deriving DecidableEq

-- What max_size() returns for _index and for _data.
structure Limits where
  index : UInt64
  data : UInt64

abbrev Record (T : Type) := T × UInt64 × Text

structure IdxMap (T : Type) where
  data : List (Record T)
  index : List UInt64
  map : Text → Option UInt64

variable {T : Type}

def new : IdxMap T := ⟨[], [], fun _ => none⟩

-- -1 as a size_t
def npos : UInt64 := 0xFFFFFFFFFFFFFFFF

def resize (limits : Limits) (index : List UInt64) (size : UInt64) : Except Fault (List UInt64) :=
  if limits.index < size then .error .lengthError
  else .ok (index.take size.toNat ++ List.replicate (size.toNat - index.length) npos)

def grow (limits : Limits) (index : List UInt64) (idx : UInt64) : Except Fault (List UInt64) :=
  if index.length ≤ idx.toNat then resize limits index (2 * idx) else .ok index

def store (index : List UInt64) (idx currpos : UInt64) : Except Fault (List UInt64) :=
  if idx.toNat < index.length then .ok (index.set idx.toNat currpos) else .error .outOfRange

def pushBack (limits : Limits) (data : List (Record T)) (record : Record T) : Except Fault (List (Record T)) :=
  if data.length < limits.data.toNat then .ok (data ++ [record]) else .error .lengthError

def insert (limits : Limits) (t : T) (idx : UInt64) (key : Text) (m : IdxMap T) : Except Fault (IdxMap T) := do
  let currpos := UInt64.ofNat m.data.length
  let grown ← grow limits m.index idx
  let index ← store grown idx currpos
  -- both branches of the search in _map leave the key at currpos
  let map := Function.update m.map key (some currpos)
  let data ← pushBack limits m.data (t, idx, key)
  .ok ⟨data, index, map⟩

def insertAll (limits : Limits) : List (Record T) → IdxMap T → Except Fault (IdxMap T) :=
  run fun record => insert limits record.1 record.2.1 record.2.2

def read (data : List (Record T)) (position : UInt64) : Except Fault (Option T) :=
  match data[position.toNat]? with
  | none => .error .outOfRange
  | some record => .ok (some record.1)

def IdxMap.atIdx (m : IdxMap T) (idx : UInt64) : Except Fault (Option T) :=
  match m.index[idx.toNat]? with
  | none => .ok none
  | some position => if position ≠ npos then read m.data position else .ok none

def IdxMap.find (m : IdxMap T) (key : Text) : Except Fault (Option T) :=
  match m.map key with
  | none => .ok none
  | some position => if position ≠ npos then read m.data position else .ok none

def target (position : UInt64) : Option Nat := if position = npos then none else some position.toNat

def IdxMap.slot (m : IdxMap T) (idx : UInt64) : Option Nat := m.index[idx.toNat]?.bind target

def IdxMap.link (m : IdxMap T) (key : Text) : Option Nat := (m.map key).bind target

def atIndex (idx : UInt64) (record : Record T) : Bool := record.2.1 = idx

def underKey (key : Text) (record : Record T) : Bool := record.2.2 = key

structure Tracks (past : List (Record T)) (m : IdxMap T) : Prop where
  data : m.data = past
  slots : ∀ idx, Linked (atIndex idx) past (m.slot idx)
  links : ∀ key, Linked (underKey key) past (m.link key)

theorem tracks_new : Tracks ([] : List (Record T)) new :=
  ⟨rfl, fun idx => linked_nil (atIndex idx), fun key => linked_nil (underKey key)⟩

theorem target_currpos (limits : Limits) (size : Nat) (room : size < limits.data.toNat) :
    target (UInt64.ofNat size) = some size := by
  have bound := limits.data.toNat_lt
  have kept : (UInt64.ofNat size).toNat = size := UInt64.toNat_ofNat_of_lt' (Nat.lt_trans room bound)
  have proper : UInt64.ofNat size ≠ npos := by
    intro same
    have last : size = npos.toNat := by rw [← same, kept]
    have sentinel : npos.toNat = 2 ^ 64 - 1 := rfl
    omega
  rw [target, if_neg proper, kept]

theorem target_fill (index : List UInt64) (size i : Nat) (larger : index.length ≤ size) :
    (index.take size ++ List.replicate (size - index.length) npos)[i]?.bind target = index[i]?.bind target := by
  rw [List.take_of_length_le larger]
  by_cases old : i < index.length
  · rw [List.getElem?_append_left old]
  · have beyond : index.length ≤ i := Nat.le_of_not_lt old
    rw [List.getElem?_append_right beyond, List.getElem?_eq_none beyond, List.getElem?_replicate]
    by_cases filled : i - index.length < size - index.length
    · rw [if_pos filled]
      rfl
    · rw [if_neg filled]

theorem resize_ok (limits : Limits) (index grown : List UInt64) (size : UInt64) (run : resize limits index size = .ok grown) :
    grown = index.take size.toNat ++ List.replicate (size.toNat - index.length) npos := by
  by_cases beyond : limits.index < size
  · simp [resize, beyond] at run
  · simpa [resize, beyond] using run.symm

theorem resize_length (limits : Limits) (index grown : List UInt64) (size : UInt64)
    (run : resize limits index size = .ok grown) : grown.length = size.toNat := by
  rw [resize_ok limits index grown size run]
  simp only [List.length_append, List.length_take, List.length_replicate]
  omega

theorem store_ok (index stored : List UInt64) (idx currpos : UInt64) (run : store index idx currpos = .ok stored) :
    idx.toNat < index.length ∧ stored = index.set idx.toNat currpos := by
  by_cases inside : idx.toNat < index.length
  · exact ⟨inside, by simpa [store, inside] using run.symm⟩
  · simp [store, inside] at run

theorem push_back_ok (limits : Limits) (data pushed : List (Record T)) (record : Record T)
    (run : pushBack limits data record = .ok pushed) : data.length < limits.data.toNat ∧ pushed = data ++ [record] := by
  by_cases room : data.length < limits.data.toNat
  · exact ⟨room, by simpa [pushBack, room] using run.symm⟩
  · simp [pushBack, room] at run

theorem insert_slots (limits : Limits) (index grown stored : List UInt64) (idx currpos other : UInt64)
    (grows : grow limits index idx = .ok grown) (run : store grown idx currpos = .ok stored) :
    stored[other.toNat]?.bind target = if idx = other then target currpos else index[other.toNat]?.bind target := by
  obtain ⟨inside, rfl⟩ := store_ok grown stored idx currpos run
  have old : grown[other.toNat]?.bind target = index[other.toNat]?.bind target := by
    by_cases short : index.length ≤ idx.toNat
    · rw [grow, if_pos short] at grows
      have length := resize_length limits index grown (2 * idx) grows
      rw [resize_ok limits index grown (2 * idx) grows]
      exact target_fill index (2 * idx).toNat other.toNat (by omega)
    · rw [grow, if_neg short] at grows
      rw [Except.ok.inj grows]
  by_cases same : idx = other
  · subst same
    rw [if_pos rfl, List.getElem?_set_self inside]
    rfl
  · have apart : idx.toNat ≠ other.toNat := fun equal => same (UInt64.toNat_inj.mp equal)
    rw [if_neg same, List.getElem?_set_ne apart, old]

theorem insert_parts (limits : Limits) (t : T) (idx : UInt64) (key : Text) (m next : IdxMap T)
    (run : insert limits t idx key m = .ok next) :
    ∃ grown stored, grow limits m.index idx = .ok grown ∧ store grown idx (UInt64.ofNat m.data.length) = .ok stored ∧
      m.data.length < limits.data.toNat ∧
      next = ⟨m.data ++ [(t, idx, key)], stored, Function.update m.map key (some (UInt64.ofNat m.data.length))⟩ := by
  rw [insert] at run
  obtain ⟨grown, grows, run⟩ := (bind_ok_iff _ _ _).mp run
  obtain ⟨stored, write, run⟩ := (bind_ok_iff _ _ _).mp run
  obtain ⟨pushed, push, run⟩ := (bind_ok_iff _ _ _).mp run
  obtain ⟨room, rfl⟩ := push_back_ok limits m.data pushed (t, idx, key) push
  exact ⟨grown, stored, grows, write, room, (Except.ok.inj run).symm⟩

theorem insert_ok (limits : Limits) (record : Record T) (m next : IdxMap T)
    (run : insert limits record.1 record.2.1 record.2.2 m = .ok next) :
    next.data = m.data ++ [record] ∧ (∀ idx, next.slot idx = if record.2.1 = idx then some m.data.length else m.slot idx) ∧
      ∀ key, next.link key = if record.2.2 = key then some m.data.length else m.link key := by
  obtain ⟨grown, stored, grows, write, room, rfl⟩ := insert_parts limits record.1 record.2.1 record.2.2 m next run
  have currpos := target_currpos limits m.data.length room
  refine ⟨rfl, fun idx => ?_, fun key => ?_⟩
  · have changed := insert_slots limits m.index grown stored record.2.1 _ idx grows write
    rw [currpos] at changed
    exact changed
  · by_cases same : record.2.2 = key
    · rw [if_pos same]
      simp [IdxMap.link, same, currpos]
    · rw [if_neg same]
      simp [IdxMap.link, Function.update_of_ne (Ne.symm same)]

theorem insert_tracks (limits : Limits) (past : List (Record T)) (record : Record T) (m next : IdxMap T) (tracks : Tracks past m)
    (run : insert limits record.1 record.2.1 record.2.2 m = .ok next) : Tracks (past ++ [record]) next := by
  obtain ⟨data, slots, links⟩ := insert_ok limits record m next run
  rw [tracks.data] at data slots links
  refine ⟨data, fun idx => ?_, fun key => ?_⟩
  · rw [slots]
    by_cases same : record.2.1 = idx
    · rw [if_pos same]
      exact linked_new (atIndex idx) past record (by simp [atIndex, same])
    · rw [if_neg same]
      exact linked_old (atIndex idx) past record (m.slot idx) (tracks.slots idx) (by simp [atIndex, same])
  · rw [links]
    by_cases same : record.2.2 = key
    · rw [if_pos same]
      exact linked_new (underKey key) past record (by simp [underKey, same])
    · rw [if_neg same]
      exact linked_old (underKey key) past record (m.link key) (tracks.links key) (by simp [underKey, same])

theorem read_link (past : List (Record T)) (p : Record T → Bool) (position : Option UInt64)
    (linked : Linked p past (position.bind target)) :
    (match position with
      | none => .ok none
      | some position => if position ≠ npos then read past position else .ok none) =
        Except.ok ((latest p past).map Prod.fst) := by
  rw [← linked.points]
  cases position with
  | none => rfl
  | some position =>
      by_cases sentinel : position = npos
      · simp [target, sentinel]
      · have inside := linked.inside position.toNat (by simp [target, sentinel])
        simp [target, sentinel, read, inside]

theorem insert_latest (limits : Limits) (inserts : List (Record T)) (m : IdxMap T)
    (completed : insertAll limits inserts new = .ok m) :
    (∀ idx, m.atIdx idx = .ok ((latest (atIndex idx) inserts).map Prod.fst)) ∧
      ∀ key, m.find key = .ok ((latest (underKey key) inserts).map Prod.fst) := by
  have tracks : Tracks inserts m := run_along _ Tracks (insert_tracks limits) inserts [] new m tracks_new completed
  constructor
  · intro idx
    rw [IdxMap.atIdx, tracks.data]
    exact read_link inserts (atIndex idx) m.index[idx.toNat]? (tracks.slots idx)
  · intro key
    rw [IdxMap.find, tracks.data]
    exact read_link inserts (underKey key) (m.map key) (tracks.links key)

theorem insert_latest_shared :
    ∃ m, insertAll ⟨1000, 1000⟩ [('p', 2, ['a']), ('q', 2, ['b']), ('r', 5, ['b'])] new = .ok m ∧
      m.atIdx 2 = .ok (some 'q') ∧ m.atIdx 3 = .ok none ∧ m.find ['a'] = .ok (some 'p') ∧ m.find ['b'] = .ok (some 'r') := by
  refine ⟨_, rfl, ?_⟩
  obtain ⟨slots, links⟩ := insert_latest ⟨1000, 1000⟩ [('p', 2, ['a']), ('q', 2, ['b']), ('r', 5, ['b'])] _ rfl
  exact ⟨slots 2, slots 3, links ['a'], links ['b']⟩

-- What the allocator answers to resize, to the node of _map and to the growth of _data, where each asks it.
structure Memory where
  index : Bool
  map : Bool
  data : Bool

structure Call (T : Type) where
  record : Record T
  memory : Memory

-- resize( 0 ) asks for nothing.
def resizes (limits : Limits) (call : Call T) : Bool :=
  2 * call.record.2.1 ≤ limits.index && (call.memory.index || call.record.2.1 = 0)

-- A caller that catches what insert throws keeps the map as the throwing statement leaves it.
def attempt (limits : Limits) (call : Call T) (m : IdxMap T) : Except Fault (IdxMap T) :=
  let (_, idx, key) := call.record
  if m.index.length ≤ idx.toNat ∧ resizes limits call = false then .ok m
  else do
    let currpos := UInt64.ofNat m.data.length
    let grown ← grow limits m.index idx
    let index ← store grown idx currpos
    if m.map key = none ∧ call.memory.map = false then .ok ⟨m.data, index, m.map⟩
    else
      let map := Function.update m.map key (some currpos)
      if m.data.length < limits.data.toNat ∧ call.memory.data then .ok ⟨m.data ++ [call.record], index, map⟩
      else .ok ⟨m.data, index, map⟩

def attemptAll (limits : Limits) : List (Call T) → IdxMap T → Except Fault (IdxMap T) := run (attempt limits)

theorem grow_length (limits : Limits) (index grown : List UInt64) (idx : UInt64) (small : idx.toNat < 2 ^ 62)
    (either : idx ≠ 0 ∨ index ≠ []) (run : grow limits index idx = .ok grown) : idx.toNat < grown.length := by
  by_cases short : index.length ≤ idx.toNat
  · rw [grow, if_pos short] at run
    rw [resize_length limits index grown (2 * idx) run, UInt64.toNat_mul]
    have positive : idx.toNat ≠ 0 := by
      intro zero
      cases either with
      | inl other => exact other (UInt64.toNat_inj.mp zero)
      | inr filled => exact filled (List.length_eq_zero_iff.mp (by omega))
    rw [show (2 : UInt64).toNat = 2 from rfl]
    omega
  · rw [grow, if_neg short] at run
    rw [← Except.ok.inj run]
    exact Nat.lt_of_not_le short

theorem grow_resizes (limits : Limits) (call : Call T) (index : List UInt64)
    (resized : ¬ (index.length ≤ call.record.2.1.toNat ∧ resizes limits call = false)) :
    ∃ grown, grow limits index call.record.2.1 = .ok grown := by
  by_cases short : index.length ≤ call.record.2.1.toNat
  · have fits : resizes limits call = true := by simpa [short] using resized
    rw [resizes, Bool.and_eq_true, decide_eq_true_iff] at fits
    have within : ¬ limits.index < 2 * call.record.2.1 := UInt64.not_lt.mpr fits.1
    exact ⟨_, by rw [grow, if_pos short, resize, if_neg within]⟩
  · exact ⟨index, by rw [grow, if_neg short]⟩

theorem attempt_parts (limits : Limits) (call : Call T) (m : IdxMap T)
    (resized : ¬ (m.index.length ≤ call.record.2.1.toNat ∧ resizes limits call = false)) :
    ∃ grown, grow limits m.index call.record.2.1 = .ok grown ∧
      (attempt limits call m = .error .outOfRange ∧ grown.length ≤ call.record.2.1.toNat ∨
        ∃ next, attempt limits call m = .ok next ∧ call.record.2.1.toNat < grown.length ∧
          next.index = grown.set call.record.2.1.toNat (UInt64.ofNat m.data.length)) := by
  obtain ⟨grown, grows⟩ := grow_resizes limits call m.index resized
  refine ⟨grown, grows, ?_⟩
  by_cases inside : call.record.2.1.toNat < grown.length
  · right
    simp only [attempt, if_neg resized, grows, ok_bind, store, if_pos inside]
    by_cases unmapped : m.map call.record.2.2 = none ∧ call.memory.map = false
    · exact ⟨_, if_pos unmapped, inside, rfl⟩
    · rw [if_neg unmapped]
      by_cases pushed : m.data.length < limits.data.toNat ∧ call.memory.data
      · exact ⟨_, if_pos pushed, inside, rfl⟩
      · exact ⟨_, if_neg pushed, inside, rfl⟩
  · left
    refine ⟨?_, Nat.le_of_not_lt inside⟩
    simp only [attempt, if_neg resized, grows, ok_bind, store, if_neg inside, error_bind]

theorem attempt_unresized (limits : Limits) (call : Call T) (m : IdxMap T) (short : m.index.length ≤ call.record.2.1.toNat)
    (throws : resizes limits call = false) : attempt limits call m = .ok m := if_pos ⟨short, throws⟩

theorem attempt_insert (limits : Limits) (record : Record T) (m next : IdxMap T)
    (run : insert limits record.1 record.2.1 record.2.2 m = .ok next) :
    attempt limits ⟨record, ⟨true, true, true⟩⟩ m = .ok next := by
  obtain ⟨grown, stored, grows, write, room, rfl⟩ := insert_parts limits record.1 record.2.1 record.2.2 m next run
  have resized : ¬ (m.index.length ≤ record.2.1.toNat ∧ resizes limits ⟨record, ⟨true, true, true⟩⟩ = false) := by
    intro skipped
    have beyond : limits.index < 2 * record.2.1 := by simpa [resizes] using skipped.2
    simp [grow, resize, skipped.1, beyond] at grows
  simp [attempt, resized, grows, write, room]

theorem attempt_all_insert (limits : Limits) (inserts : List (Record T)) (m last : IdxMap T)
    (completed : insertAll limits inserts m = .ok last) :
    attemptAll limits (inserts.map fun record => ⟨record, ⟨true, true, true⟩⟩) m = .ok last := by
  induction inserts generalizing m with
  | nil => exact completed
  | cons record inserts ih =>
      obtain ⟨next, taken, rest⟩ := (bind_ok_iff _ _ last).mp completed
      have same := attempt_insert limits record m next taken
      rw [List.map_cons, attemptAll, run_ok_cons (attempt limits) _ _ m next same]
      exact ih next rest

-- resize( 2*0 ) leaves the empty index empty.
theorem attempt_zero_first (limits : Limits) (call : Call T) (m : IdxMap T) (empty : m.index = []) (zero : call.record.2.1 = 0) :
    attempt limits call m = .error .outOfRange := by
  simp [attempt, resizes, grow, resize, store, empty, zero]

theorem attempt_in_range (limits : Limits) (call : Call T) (m : IdxMap T) (small : call.record.2.1.toNat < 2 ^ 62)
    (either : call.record.2.1 ≠ 0 ∨ m.index ≠ [])
    (resized : ¬ (m.index.length ≤ call.record.2.1.toNat ∧ resizes limits call = false)) :
    ∃ next, attempt limits call m = .ok next ∧ next.index ≠ [] := by
  obtain ⟨grown, grows, outcome⟩ := attempt_parts limits call m resized
  have room := grow_length limits m.index grown call.record.2.1 small either grows
  cases outcome with
  | inl out => exact absurd room (Nat.not_lt.mpr out.2)
  | inr inside =>
      obtain ⟨next, taken, within, written⟩ := inside
      refine ⟨next, taken, ?_⟩
      rw [written, ne_eq, List.set_eq_nil_iff]
      exact List.ne_nil_of_length_pos (Nat.zero_lt_of_lt within)

theorem attempt_filled (limits : Limits) (call : Call T) (m : IdxMap T) (small : call.record.2.1.toNat < 2 ^ 62)
    (filled : m.index ≠ []) : ∃ next, attempt limits call m = .ok next ∧ next.index ≠ [] := by
  by_cases throws : m.index.length ≤ call.record.2.1.toNat ∧ resizes limits call = false
  · exact ⟨m, if_pos throws, filled⟩
  · exact attempt_in_range limits call m small (.inr filled) throws

-- Once a write has filled the index, growth by doubling makes room for any other.
theorem attempt_all_filled (limits : Limits) (calls : List (Call T)) (m : IdxMap T)
    (small : ∀ call ∈ calls, call.record.2.1.toNat < 2 ^ 62) (filled : m.index ≠ []) :
    attemptAll limits calls m ≠ .error .outOfRange := by
  induction calls generalizing m with
  | nil => simp [attemptAll, run]
  | cons call calls ih =>
      obtain ⟨next, taken, kept⟩ := attempt_filled limits call m (small call (by simp)) filled
      rw [attemptAll, run_ok_cons (attempt limits) call calls m next taken]
      exact ih next (fun other member => small other (by simp [member])) kept

theorem attempt_all_iff (limits : Limits) (calls : List (Call T)) (m : IdxMap T)
    (small : ∀ call ∈ calls, call.record.2.1.toNat < 2 ^ 62) (empty : m.index = []) :
    attemptAll limits calls m ≠ .error .outOfRange ↔
      ∀ first, calls.find? (resizes limits) = some first → first.record.2.1 ≠ 0 := by
  induction calls with
  | nil => simp [attemptAll, run]
  | cons call calls ih =>
      have later : ∀ other ∈ calls, other.record.2.1.toNat < 2 ^ 62 := fun other member => small other (by simp [member])
      cases throws : resizes limits call with
      | false =>
          have short : m.index.length ≤ call.record.2.1.toNat := by simp [empty]
          rw [attemptAll, run_ok_cons (attempt limits) call calls m m (attempt_unresized limits call m short throws),
            List.find?_cons_of_neg (by simp [throws])]
          exact ih later
      | true =>
          rw [List.find?_cons_of_pos throws]
          by_cases zero : call.record.2.1 = 0
          · have out := run_error_cons (attempt limits) call calls m _ (attempt_zero_first limits call m empty zero)
            exact iff_of_false (fun safe => safe out) fun positive => positive call rfl zero
          · obtain ⟨next, taken, filled⟩ := attempt_in_range limits call m (small call (by simp)) (.inl zero) (by simp [throws])
            rw [attemptAll, run_ok_cons (attempt limits) call calls m next taken]
            refine iff_of_true (attempt_all_filled limits calls next later filled) fun first here => ?_
            obtain rfl := Option.some.inj here
            exact zero

theorem insert_all_safe_iff (limits : Limits) (calls : List (Call T))
    (small : ∀ call ∈ calls, call.record.2.1.toNat < 2 ^ 62) :
    attemptAll limits calls new ≠ .error .outOfRange ↔
      ∀ first, calls.find? (resizes limits) = some first → first.record.2.1 ≠ 0 :=
  attempt_all_iff limits calls new small rfl

def called (idx : UInt64) (memory : Memory) : Call Unit := ⟨((), idx, ['a']), memory⟩

theorem insert_all_safe_sparse :
    let caught := [called 0x2000000000000000 ⟨true, true, true⟩, called 9 ⟨false, true, true⟩]
    attemptAll ⟨1000, 1000⟩
        (caught ++ [called 7 ⟨true, true, false⟩, called 0 ⟨true, true, true⟩, called 7 ⟨true, true, true⟩]) new ≠ .error .outOfRange ∧
      attemptAll ⟨1000, 1000⟩ (caught ++ [called 0 ⟨true, true, true⟩]) new = .error .outOfRange := by
  intro caught
  refine ⟨(insert_all_safe_iff ⟨1000, 1000⟩ _ (by decide)).mpr fun first here => ?_, ?_⟩
  · obtain rfl : called 7 ⟨true, true, false⟩ = first := Option.some.inj here
    decide
  · refine Classical.byContradiction fun safe => ?_
    exact (insert_all_safe_iff ⟨1000, 1000⟩ (caught ++ [called 0 ⟨true, true, true⟩]) (by decide)).mp safe
      (called 0 ⟨true, true, true⟩) rfl rfl

theorem insert_zero_out_of_range :
    attemptAll ⟨1000, 1000⟩ [called 0 ⟨true, true, true⟩] new = .error .outOfRange := rfl

end Libx.Pbx

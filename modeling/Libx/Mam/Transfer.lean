import Mathlib.Data.List.Basic

set_option autoImplicit false

namespace Libx.Mam

abbrev Bytes := List UInt8

-- A call of read or write: how far buf_ has moved, the count asked for and the
-- bytes that it has transferred.
structure Transfer where
  buf : Nat
  requested : Nat
  bytes : Bytes
deriving DecidableEq, Repr

def transferred (calls : List Transfer) : Bytes := calls.flatMap Transfer.bytes

-- What write returns, at most what it is asked for, and what errno then is.
structure Answer where
  n : Int
  errno : Int
deriving DecidableEq, Repr

def Answer.returned (answer : Answer) (count : Nat) : Int := min answer.n count

def EAGAIN : Int := 11

structure Written where
  nb : Nat
  calls : List Transfer
deriving DecidableEq, Repr

def Written.after (call : Transfer) (written : Written) : Written := { written with calls := call :: written.calls }

-- count_ and nb stay between 0 and the count that the caller gives. There is no
-- result where the answers end before tcp_write returns.
def tcpWrite (buffer : Bytes) : List Answer → Nat → Nat → Nat → Option Written
  | [], _, _, _ => none
  | answer :: rest, buf, count, nb =>
      let n := answer.returned count
      let call : Transfer := ⟨buf, count, (buffer.drop buf).take n.toNat⟩
      let condition := fun buf count nb => if 0 < count then tcpWrite buffer rest buf count nb else some ⟨nb, []⟩
      if n ≤ 0 then
        if answer.errno = EAGAIN then (condition buf count nb).map (Written.after call) else some ⟨nb, [call]⟩
      else (condition (buf + n.toNat) (count - n.toNat) (nb + n.toNat)).map (Written.after call)

-- The bytes that read has for the call, of which it delivers no more than it is asked for.
inductive Delivery where
  | bytes (data : Bytes)
  | fails (errno : Int)
deriving DecidableEq, Repr

structure Stored where
  memory : Bytes
  nb : Nat
  error : Int
  calls : List Transfer
deriving DecidableEq, Repr

def Stored.after (call : Transfer) (stored : Stored) : Stored := { stored with calls := call :: stored.calls }

def store (memory : Bytes) (buf : Nat) (data : Bytes) : Bytes := memory.take buf ++ data ++ memory.drop (buf + data.length)

def tcpRead : List Delivery → Bytes → Nat → Nat → Nat → Int → Option Stored
  | [], _, _, _, _, _ => none
  | .fails _ :: _, memory, buf, count, nb, _ => some ⟨memory, nb, -1, [⟨buf, count, []⟩]⟩
  | .bytes data :: rest, memory, buf, count, nb, error =>
      let delivered := data.take count
      let n := delivered.length
      let call : Transfer := ⟨buf, count, delivered⟩
      if n = 0 then some ⟨memory, nb, error, [call]⟩
      else
        let filled := store memory buf delivered
        if 0 < count - n then (tcpRead rest filled (buf + n) (count - n) (nb + n) error).map (Stored.after call)
        else some ⟨filled, nb + n, error, [call]⟩

def InStep (buf count : Nat) (calls : List Transfer) : Prop :=
  ∀ before call after, calls = before ++ call :: after →
    call.buf = buf + (transferred before).length ∧ (transferred before).length + call.requested ≤ count

structure WrittenExactly (buffer : Bytes) (count : Nat) (written : Written) : Prop where
  handed : transferred written.calls = buffer.take written.nb
  bound : written.nb ≤ count
  inStep : InStep 0 count written.calls

structure StoredExactly (buffer : Bytes) (count : Nat) (stored : Stored) : Prop where
  delivered : stored.memory = transferred stored.calls ++ buffer.drop stored.nb
  number : stored.nb = (transferred stored.calls).length
  bound : stored.nb ≤ count
  inStep : InStep 0 count stored.calls

@[simp] theorem transferred_nil : transferred [] = [] := rfl
@[simp] theorem transferred_cons (call : Transfer) (calls : List Transfer) :
    transferred (call :: calls) = call.bytes ++ transferred calls := List.flatMap_cons

theorem in_step_nil (buf count : Nat) : InStep buf count [] := by
  intro before call after split
  cases before <;> cases split

theorem in_step_cons (call : Transfer) (calls : List Transfer) (count : Nat) (asked : call.requested ≤ count) (moved : call.bytes.length ≤ count)
    (later : InStep (call.buf + call.bytes.length) (count - call.bytes.length) calls) : InStep call.buf count (call :: calls) := by
  intro before other after split
  cases before with
  | nil =>
      obtain ⟨rfl, -⟩ := List.cons.inj split
      simpa using asked
  | cons first before =>
      obtain ⟨rfl, rest⟩ := List.cons.inj split
      have step := later before other after rest
      rw [transferred_cons, List.length_append]
      omega

section Writing

variable (buffer : Bytes)

structure WrittenFrom (buf count nb : Nat) (written : Written) : Prop where
  total : written.nb = nb + (transferred written.calls).length
  handed : transferred written.calls = (buffer.drop buf).take (transferred written.calls).length
  bound : (transferred written.calls).length ≤ count
  inStep : InStep buf count written.calls

theorem written_none (buf count nb : Nat) : WrittenFrom buffer buf count nb ⟨nb, []⟩ :=
  ⟨rfl, rfl, Nat.zero_le count, in_step_nil buf count⟩

theorem written_after (buf count nb n : Nat) (written : Written) (asked : n ≤ count) (allocated : buf + count ≤ buffer.length)
    (later : WrittenFrom buffer (buf + n) (count - n) (nb + n) written) :
    WrittenFrom buffer buf count nb (written.after ⟨buf, count, (buffer.drop buf).take n⟩) := by
  have size : ((buffer.drop buf).take n).length = n := by
    rw [List.length_take, List.length_drop]
    omega
  have all : (transferred (written.after ⟨buf, count, (buffer.drop buf).take n⟩).calls).length = n + (transferred written.calls).length := by
    rw [Written.after, transferred_cons, List.length_append, size]
  refine ⟨?_, ?_, ?_, ?_⟩
  · rw [all, Written.after, later.total, Nat.add_assoc]
  · rw [all, List.take_add, List.drop_drop, ← later.handed]
    rfl
  · have rest := later.bound
    omega
  · refine in_step_cons ⟨buf, count, (buffer.drop buf).take n⟩ written.calls count (Nat.le_refl _) ?_ ?_
    · rw [size]
      exact asked
    · rw [size]
      exact later.inStep

theorem write_runs (answers : List Answer) (buf count nb : Nat) (allocated : buf + count ≤ buffer.length) (written : Written)
    (returns : tcpWrite buffer answers buf count nb = some written) : WrittenFrom buffer buf count nb written := by
  induction answers generalizing buf count nb written with
  | nil => cases returns
  | cons answer rest ih =>
      have condition (buf count nb : Nat) (allocated : buf + count ≤ buffer.length) (written : Written)
          (returns : (if 0 < count then tcpWrite buffer rest buf count nb else some ⟨nb, []⟩) = some written) :
          WrittenFrom buffer buf count nb written := by
        by_cases more : 0 < count
        · rw [if_pos more] at returns
          exact ih buf count nb allocated written returns
        · rw [if_neg more] at returns
          obtain rfl := Option.some.inj returns
          exact written_none buffer buf count nb
      have asked : (answer.returned count).toNat ≤ count := by
        rw [Answer.returned]
        omega
      rw [tcpWrite] at returns
      dsimp only at returns
      split at returns
      case isTrue nothing =>
        have still : (answer.returned count).toNat = 0 := Int.toNat_eq_zero.mpr nothing
        rw [still] at returns
        split at returns
        case isTrue =>
          obtain ⟨later, again, rfl⟩ := Option.map_eq_some_iff.mp returns
          exact written_after buffer buf count nb 0 later (Nat.zero_le count) allocated (condition buf count nb allocated later again)
        case isFalse =>
          obtain rfl := Option.some.inj returns
          exact written_after buffer buf count nb 0 ⟨nb, []⟩ (Nat.zero_le count) allocated (written_none buffer buf count nb)
      case isFalse =>
        obtain ⟨later, again, rfl⟩ := Option.map_eq_some_iff.mp returns
        exact written_after buffer buf count nb _ later asked allocated (condition _ _ _ (by omega) later again)

end Writing

section Reading

theorem store_store (memory first later : Bytes) (buf : Nat) (inside : buf ≤ memory.length) :
    store (store memory buf first) (buf + first.length) later = store memory buf (first ++ later) := by
  have size : (memory.take buf ++ first).length = buf + first.length := by
    rw [List.length_append, List.length_take, Nat.min_eq_left inside]
  have taken : (store memory buf first).take (buf + first.length) = memory.take buf ++ first := by
    rw [store, ← size, List.take_left]
  have dropped : (store memory buf first).drop (buf + first.length + later.length) = memory.drop (buf + (first ++ later).length) := by
    rw [store, ← List.drop_drop, ← size, List.drop_left, size, List.drop_drop, List.length_append, Nat.add_assoc]
  rw [store, taken, dropped, store, List.append_assoc (memory.take buf)]

theorem store_length (memory data : Bytes) (buf : Nat) (inside : buf + data.length ≤ memory.length) :
    (store memory buf data).length = memory.length := by
  rw [store, List.length_append, List.length_append, List.length_take, List.length_drop]
  omega

structure StoredFrom (memory : Bytes) (buf count nb : Nat) (stored : Stored) : Prop where
  total : stored.nb = nb + (transferred stored.calls).length
  delivered : stored.memory = store memory buf (transferred stored.calls)
  bound : (transferred stored.calls).length ≤ count
  inStep : InStep buf count stored.calls

theorem store_nothing (memory : Bytes) (buf : Nat) : store memory buf [] = memory := by
  rw [store, List.append_nil, List.length_nil, Nat.add_zero, List.take_append_drop]

theorem stored_none (memory : Bytes) (buf count nb : Nat) (error : Int) :
    StoredFrom memory buf count nb ⟨memory, nb, error, []⟩ :=
  ⟨rfl, (store_nothing memory buf).symm, Nat.zero_le count, in_step_nil buf count⟩

theorem stored_after (memory delivered : Bytes) (buf count nb : Nat) (stored : Stored) (asked : delivered.length ≤ count)
    (allocated : buf + count ≤ memory.length)
    (later : StoredFrom (store memory buf delivered) (buf + delivered.length) (count - delivered.length) (nb + delivered.length) stored) :
    StoredFrom memory buf count nb (stored.after ⟨buf, count, delivered⟩) := by
  have all : transferred (stored.after ⟨buf, count, delivered⟩).calls = delivered ++ transferred stored.calls := transferred_cons _ _
  refine ⟨?_, ?_, ?_, ?_⟩
  · rw [all, List.length_append, Stored.after, later.total, Nat.add_assoc]
  · rw [all, Stored.after, later.delivered, store_store memory delivered _ buf (by omega)]
  · have rest := later.bound
    rw [all, List.length_append]
    omega
  · exact in_step_cons ⟨buf, count, delivered⟩ stored.calls count (Nat.le_refl _) asked later.inStep

theorem stored_still (memory : Bytes) (buf count nb : Nat) (error : Int) (allocated : buf + count ≤ memory.length) :
    StoredFrom memory buf count nb ⟨memory, nb, error, [⟨buf, count, []⟩]⟩ := by
  refine stored_after memory [] buf count nb ⟨memory, nb, error, []⟩ (Nat.zero_le count) allocated ?_
  rw [store_nothing]
  exact stored_none memory buf count nb error

theorem read_runs (deliveries : List Delivery) (memory : Bytes) (buf count nb : Nat) (error : Int)
    (allocated : buf + count ≤ memory.length) (stored : Stored) (returns : tcpRead deliveries memory buf count nb error = some stored) :
    StoredFrom memory buf count nb stored := by
  induction deliveries generalizing memory buf count nb stored with
  | nil => cases returns
  | cons delivery rest ih =>
      cases delivery with
      | fails errno =>
          obtain rfl := Option.some.inj returns
          exact stored_still memory buf count nb (-1) allocated
      | bytes data =>
          have asked : (data.take count).length ≤ count := by
            rw [List.length_take]
            exact Nat.min_le_left _ _
          have size := store_length memory (data.take count) buf (by omega)
          rw [tcpRead] at returns
          dsimp only at returns
          split at returns
          case isTrue ended =>
            obtain rfl := Option.some.inj returns
            rw [List.eq_nil_of_length_eq_zero ended]
            exact stored_still memory buf count nb error allocated
          case isFalse =>
            split at returns
            case isTrue =>
              obtain ⟨later, again, rfl⟩ := Option.map_eq_some_iff.mp returns
              exact stored_after memory _ buf count nb later asked allocated (ih _ _ _ _ (by omega) later again)
            case isFalse =>
              obtain rfl := Option.some.inj returns
              exact stored_after memory _ buf count nb ⟨_, _, error, []⟩ asked allocated (stored_none _ _ _ _ error)

end Reading

theorem transfers_exact (buffer : Bytes) (count : Nat) (allocated : count ≤ buffer.length) :
    (∀ answers written, tcpWrite buffer answers 0 count 0 = some written → WrittenExactly buffer count written) ∧
      ∀ deliveries error stored, tcpRead deliveries buffer 0 count 0 error = some stored → StoredExactly buffer count stored := by
  constructor
  · intro answers written returns
    have run := write_runs buffer answers 0 count 0 (by omega) written returns
    have total := run.total
    rw [Nat.zero_add] at total
    exact ⟨by rw [total]; exact run.handed, by rw [total]; exact run.bound, run.inStep⟩
  · intro deliveries error stored returns
    have run := read_runs deliveries buffer 0 count 0 error (by omega) stored returns
    have total := run.total
    have delivered := run.delivered
    rw [Nat.zero_add] at total
    rw [store, List.take_zero, List.nil_append, Nat.zero_add, ← total] at delivered
    exact ⟨delivered, total, by rw [total]; exact run.bound, run.inStep⟩

theorem transfers_exact_retried :
    WrittenExactly [1, 2, 3, 4, 5] 4 ⟨3, [⟨0, 4, [1, 2]⟩, ⟨2, 2, []⟩, ⟨2, 2, [3]⟩, ⟨3, 1, []⟩]⟩ ∧
      StoredExactly [1, 2, 3, 4, 5] 4 ⟨[7, 8, 9, 4, 5], 3, 0, [⟨0, 4, [7, 8]⟩, ⟨2, 2, [9]⟩, ⟨3, 1, []⟩]⟩ :=
  ⟨(transfers_exact [1, 2, 3, 4, 5] 4 (by decide)).1 [⟨2, 0⟩, ⟨-1, 11⟩, ⟨1, 0⟩, ⟨-1, 32⟩] _ (by decide),
    (transfers_exact [1, 2, 3, 4, 5] 4 (by decide)).2 [.bytes [7, 8], .bytes [9], .bytes []] 0 _ (by decide)⟩

end Libx.Mam

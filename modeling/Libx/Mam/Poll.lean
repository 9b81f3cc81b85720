import Libx.Mam.Multiplexer
import Libx.Lib.Fallible

set_option autoImplicit false

namespace Libx.Mam

variable {Context Handler : Type}

inductive Fault where
  | nullHandler
deriving DecidableEq, Repr

-- One event of a batch, with the calls that the handler it reaches makes,
-- whatever handler that is.
structure Event (Context Handler : Type) where
  fd : Int
  calls : List (Call Context Handler)

def Event.dispatch (event : Event Context Handler) (multiplexer : Multiplexer Context Handler) :
    Except Fault (Multiplexer Context Handler) :=
  if 0 ≤ event.fd ∧ event.fd < multiplexer.fds.length then
    match multiplexer.handlerAt event.fd with
    | none => .error .nullHandler
    | some _ => .ok (runCalls event.calls multiplexer)
  else .ok multiplexer

-- The loop of poll over the batch that epoll_wait has reported.
def poll (events : List (Event Context Handler)) (multiplexer : Multiplexer Context Handler) :
    Except Fault (Multiplexer Context Handler) :=
  Fallible.run Event.dispatch events multiplexer

-- The same loop over handlers that are programs: what they do may depend on
-- anything outside the table, and `act` says what it is.
def pollWith {World : Type} (act : World → Int → Option Context → Handler → World × List (Call Context Handler)) :
    World → List Int → Multiplexer Context Handler → Except Fault (Multiplexer Context Handler)
  | _, [], multiplexer => .ok multiplexer
  | world, fd :: rest, multiplexer =>
      if 0 ≤ fd ∧ fd < multiplexer.fds.length then
        match multiplexer.handlerAt fd with
        | none => .error .nullHandler
        | some handler =>
            let acted := act world fd (multiplexer.fds[fd.toNat]?.bind Slot.context) handler
            pollWith act acted.1 rest (runCalls acted.2 multiplexer)
      else pollWith act world rest multiplexer

theorem poll_with_calls {World : Type} (act : World → Int → Option Context → Handler → World × List (Call Context Handler))
    (world : World) (fds : List Int) (multiplexer : Multiplexer Context Handler) :
    ∃ events, events.map Event.fd = fds ∧ pollWith act world fds multiplexer = poll events multiplexer := by
  induction fds generalizing world multiplexer with
  | nil => exact ⟨[], rfl, rfl⟩
  | cons fd rest ih =>
      by_cases inTable : 0 ≤ fd ∧ fd < multiplexer.fds.length
      · cases held : multiplexer.handlerAt fd with
        | none =>
            obtain ⟨events, same, _⟩ := ih world multiplexer
            have taken : (⟨fd, []⟩ : Event Context Handler).dispatch multiplexer = .error .nullHandler := by
              rw [Event.dispatch, if_pos inTable, held]
            refine ⟨⟨fd, []⟩ :: events, by simp [same], ?_⟩
            rw [poll, Fallible.run_error_cons _ _ _ _ _ taken, pollWith, if_pos inTable, held]
        | some handler =>
            let acted := act world fd (multiplexer.fds[fd.toNat]?.bind Slot.context) handler
            obtain ⟨events, same, later⟩ := ih acted.1 (runCalls acted.2 multiplexer)
            have taken : (⟨fd, acted.2⟩ : Event Context Handler).dispatch multiplexer = .ok (runCalls acted.2 multiplexer) := by
              rw [Event.dispatch, if_pos inTable, held]
            refine ⟨⟨fd, acted.2⟩ :: events, by simp [same], ?_⟩
            rw [poll, Fallible.run_ok_cons _ _ _ _ _ taken, pollWith, if_pos inTable, held]
            exact later
      · obtain ⟨events, same, later⟩ := ih world multiplexer
        have taken : (⟨fd, []⟩ : Event Context Handler).dispatch multiplexer = .ok multiplexer := by
          rw [Event.dispatch, if_neg inTable]
        refine ⟨⟨fd, []⟩ :: events, by simp [same], ?_⟩
        rw [poll, Fallible.run_ok_cons _ _ _ _ _ taken, pollWith, if_neg inTable, later]
        rfl

def callsOf (events : List (Event Context Handler)) : List (Call Context Handler) := events.flatMap Event.calls

def Reached (multiplexer : Multiplexer Context Handler) (events : List (Event Context Handler)) : Prop :=
  ∀ before event after, events = before ++ event :: after →
    leftRegistered event.fd (multiplexer.handlerAt event.fd).isSome (callsOf before) = true

theorem grown_length (multiplexer : Multiplexer Context Handler) (fd : Nat) :
    multiplexer.fds.length ≤ (multiplexer.grown fd).length := by
  rw [Multiplexer.grown]
  by_cases short : multiplexer.fds.length ≤ fd
  · simp only [if_pos short, List.length_append]
    omega
  · simp only [if_neg short]
    exact Nat.le_refl _

theorem call_length (multiplexer : Multiplexer Context Handler) (call : Call Context Handler) :
    multiplexer.fds.length ≤ (call.apply multiplexer).fds.length := by
  cases call with
  | register fd context handler =>
      rw [Call.apply, Multiplexer.registerFd]
      split
      · exact Nat.le_refl _
      · rw [List.length_set]
        exact grown_length multiplexer fd.toNat
  | unregister fd =>
      rw [Call.apply, Multiplexer.unregisterCloseFd]
      split
      · exact Nat.le_refl _
      · exact Nat.le_of_eq List.length_set.symm

theorem run_length (calls : List (Call Context Handler)) (multiplexer : Multiplexer Context Handler) :
    multiplexer.fds.length ≤ (runCalls calls multiplexer).fds.length := by
  induction calls generalizing multiplexer with
  | nil => exact Nat.le_refl _
  | cons call rest ih => exact Nat.le_trans (call_length multiplexer call) (ih (call.apply multiplexer))

theorem reached_cons (multiplexer : Multiplexer Context Handler) (event : Event Context Handler)
    (rest : List (Event Context Handler)) :
    Reached multiplexer (event :: rest) ↔
      (multiplexer.handlerAt event.fd).isSome = true ∧ Reached (runCalls event.calls multiplexer) rest := by
  have later (before : List (Event Context Handler)) (other : Event Context Handler) :
      leftRegistered other.fd (multiplexer.handlerAt other.fd).isSome (callsOf (event :: before)) =
        leftRegistered other.fd ((runCalls event.calls multiplexer).handlerAt other.fd).isSome (callsOf before) := by
    rw [run_handlers, callsOf, List.flatMap_cons, leftRegistered, List.foldl_append]
    rfl
  constructor
  · intro reached
    refine ⟨reached [] event rest rfl, ?_⟩
    intro before other after split
    rw [← later]
    exact reached (event :: before) other after (by simp [split])
  · intro both before other after split
    cases before with
    | nil =>
        obtain ⟨rfl, _⟩ := List.cons.inj split
        exact both.1
    | cons first before =>
        obtain ⟨rfl, others⟩ := List.cons.inj split
        rw [later]
        exact both.2 before other after others

theorem poll_reached (events : List (Event Context Handler)) (multiplexer : Multiplexer Context Handler)
    (inTable : ∀ event ∈ events, 0 ≤ event.fd ∧ event.fd < multiplexer.fds.length) :
    poll events multiplexer ≠ .error .nullHandler ↔ Reached multiplexer events := by
  induction events generalizing multiplexer with
  | nil => simp [poll, Fallible.run, Reached]
  | cons event rest ih =>
      have here := inTable event List.mem_cons_self
      rw [reached_cons]
      cases held : multiplexer.handlerAt event.fd with
      | none =>
          have taken : event.dispatch multiplexer = .error .nullHandler := by rw [Event.dispatch, if_pos here, held]
          rw [poll, Fallible.run_error_cons _ _ _ _ _ taken]
          simp
      | some handler =>
          have taken : event.dispatch multiplexer = .ok (runCalls event.calls multiplexer) := by
            rw [Event.dispatch, if_pos here, held]
          have still : ∀ other ∈ rest, 0 ≤ other.fd ∧ other.fd < (runCalls event.calls multiplexer).fds.length := by
            intro other member
            obtain ⟨positive, inside⟩ := inTable other (List.mem_cons_of_mem _ member)
            have longer := run_length event.calls multiplexer
            exact ⟨positive, by omega⟩
          rw [poll, Fallible.run_ok_cons _ _ _ _ _ taken, ← ih _ still]
          simp [poll]

theorem poll_handlers_iff (events : List (Event Context Handler)) (multiplexer : Multiplexer Context Handler)
    (live : ∀ event ∈ events, (multiplexer.handlerAt event.fd).isSome = true) :
    poll events multiplexer ≠ .error .nullHandler ↔
      ∀ before event after, events = before ++ event :: after → leftRegistered event.fd true (callsOf before) = true := by
  have inTable : ∀ event ∈ events, 0 ≤ event.fd ∧ event.fd < multiplexer.fds.length := by
    intro event member
    obtain ⟨positive, inside, _⟩ := Multiplexer.handler_inside multiplexer event.fd (live event member)
    exact ⟨by omega, by omega⟩
  rw [poll_reached events multiplexer inTable]
  apply forall_congr'
  intro before
  apply forall₂_congr
  intro event after
  apply imp_congr_right
  intro split
  rw [live event (by simp [split])]

theorem poll_handlers_iff_own :
    poll [⟨5, [.unregister 5, .register 7 (some ()) (some ())]⟩, ⟨6, []⟩]
        (runCalls [.register 5 (some ()) (some ()), .register 6 (some ()) (some ())] .new) ≠ .error .nullHandler ↔
      ∀ before event after, [(⟨5, [.unregister 5, .register 7 (some ()) (some ())]⟩ : Event Unit Unit), ⟨6, []⟩] =
        before ++ event :: after → leftRegistered event.fd true (callsOf before) = true := by
  apply poll_handlers_iff
  intro event member
  simp only [List.mem_cons, List.not_mem_nil, or_false] at member
  cases member with
  | inl first => exact first ▸ rfl
  | inr second => exact second ▸ rfl

theorem closed_peer_called :
    let multiplexer := runCalls [.register 5 (some ()) (some ()), .register 6 (some ()) (some ())] .new
    (multiplexer.handlerAt 5).isSome = true ∧ (multiplexer.handlerAt 6).isSome = true ∧
      poll [⟨5, [.unregister 6]⟩, ⟨6, []⟩] multiplexer = .error .nullHandler := by
  refine ⟨rfl, rfl, rfl⟩

end Libx.Mam

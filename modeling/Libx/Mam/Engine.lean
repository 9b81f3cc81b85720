import Libx.Mam.Multiplexer
import Mathlib.Data.Finset.Insert
import Mathlib.Data.Finset.Erase

set_option autoImplicit false

namespace Libx.Mam

-- What the system call made for an event returns: a descriptor or -1 from
-- server_accept_fd, a number of bytes from tcp_read.
inductive Incoming where
  | server (newFd : Int)
  | client (fd : Int) (size : Nat)

-- htmlclients::_fds, and the multiplexer with the engine as every context and
-- static_handler as every handler. The timer, stdin, signal and tcp
-- descriptors stay -1, so that no event comes for them.
structure Engine where
  serverFd : Int
  multiplexer : Multiplexer Unit Unit
  clients : Finset Int

namespace Engine

def start (serverFd : Int) : Engine :=
  ⟨serverFd, if 0 < serverFd then Multiplexer.new.registerFd serverFd (some ()) (some ()) else .new, ∅⟩

-- The returned descriptor is -1 after a close.
def readTcpFd (fd : Int) (size : Nat) (multiplexer : Multiplexer Unit Unit) : Int × Multiplexer Unit Unit :=
  if size = 0 then (-1, multiplexer.unregisterCloseFd fd) else (fd, multiplexer)

-- htmlclients::handle_read: with data it answers and leaves _fds alone.
def clientsHandleRead (fd : Int) (clients : Finset Int) : Finset Int := if fd = -1 then clients.erase fd else clients

def handleRead (fd newFd : Int) (size : Nat) (engine : Engine) : Engine :=
  if fd = engine.serverFd then
    { engine with
      multiplexer := engine.multiplexer.registerFd newFd (some ()) (some ())
      clients := insert newFd engine.clients }
  else if fd ∈ engine.clients then
    let (fd, multiplexer) := readTcpFd fd size engine.multiplexer
    { engine with multiplexer, clients := clientsHandleRead fd engine.clients }
  else engine

def step (engine : Engine) : Incoming → Engine
  | .server newFd => engine.handleRead engine.serverFd newFd 0
  | .client fd size => engine.handleRead fd (-1) size

def isRegistered (engine : Engine) (fd : Int) : Bool := (engine.multiplexer.handlerAt fd).isSome

-- Events come for registered descriptors, and accept does not give out an open one.
def Possible (engine : Engine) : Incoming → Prop
  | .server newFd => engine.isRegistered engine.serverFd = true ∧ (newFd = -1 ∨ 0 ≤ newFd ∧ engine.isRegistered newFd = false)
  | .client fd _ => fd ≠ engine.serverFd ∧ engine.isRegistered fd = true

def PossibleRun : Engine → List Incoming → Prop
  | _, [] => True
  | engine, incoming :: rest => engine.Possible incoming ∧ PossibleRun (engine.step incoming) rest

def Agree (engine : Engine) : Prop := ∀ fd, fd ∈ engine.clients ↔ fd ≠ engine.serverFd ∧ engine.isRegistered fd = true

end Engine

def Incoming.Succeeds : Incoming → Prop
  | .server newFd => newFd ≠ -1
  | .client _ size => size ≠ 0

namespace Engine

variable (engine : Engine)

theorem negative_unregistered (fd : Int) (negative : fd < 0) : engine.isRegistered fd = false := by
  rw [isRegistered, Multiplexer.handlerAt, if_pos negative]
  rfl

variable (agree : engine.Agree)
include agree

theorem accept_agrees (newFd : Int) (possible : engine.Possible (.server newFd)) :
    (engine.step (.server newFd)).Agree ↔ newFd ≠ -1 := by
  obtain ⟨server, new⟩ := possible
  have handlers (fd : Int) : (engine.step (.server newFd)).isRegistered fd =
      ((Call.register newFd (some ()) (some ()) : Call Unit Unit).registers fd || engine.isRegistered fd) := by
    have left := call_handlers engine.multiplexer (.register newFd (some ()) (some ())) fd
    rw [step, handleRead, if_pos rfl, isRegistered, isRegistered]
    simpa [Call.leaves, Call.releases, Call.apply] using left
  have members (fd : Int) : fd ∈ (engine.step (.server newFd)).clients ↔ fd = newFd ∨ fd ∈ engine.clients := by
    rw [step, handleRead, if_pos rfl]
    exact Finset.mem_insert
  have same : (engine.step (.server newFd)).serverFd = engine.serverFd := by rw [step, handleRead, if_pos rfl]
  constructor
  · intro agrees failed
    have listed := (agrees newFd).mp ((members newFd).mpr (.inl rfl))
    rw [handlers, negative_unregistered engine newFd (by omega)] at listed
    simp [Call.registers, failed] at listed
  · intro succeeded fd
    obtain ⟨positive, unregistered⟩ := new.resolve_left succeeded
    rw [members, same, handlers, agree fd]
    by_cases own : fd = newFd
    · have different : newFd ≠ engine.serverFd := by
        intro equal
        rw [equal, server] at unregistered
        contradiction
      simp [own, different, Call.registers, positive]
    · simp [own, Ne.symm own, Call.registers]

theorem receive_agrees (fd : Int) (size : Nat) (possible : engine.Possible (.client fd size)) :
    (engine.step (.client fd size)).Agree ↔ size ≠ 0 := by
  obtain ⟨client, live⟩ := possible
  have listed : fd ∈ engine.clients := (agree fd).mpr ⟨client, live⟩
  have reads : engine.step (.client fd size) =
      { engine with
        multiplexer := (readTcpFd fd size engine.multiplexer).2
        clients := clientsHandleRead (readTcpFd fd size engine.multiplexer).1 engine.clients } := by
    rw [step, handleRead, if_neg client, if_pos listed]
  have positive : fd ≠ -1 := by
    intro negative
    rw [negative_unregistered engine fd (by omega)] at live
    contradiction
  rw [reads]
  by_cases closed : size = 0
  · -- The descriptor is unregistered, and -1 is erased in its place.
    simp only [readTcpFd, if_pos closed, clientsHandleRead, if_true]
    constructor
    · intro agrees
      have still := (agrees fd).mp (Finset.mem_erase.mpr ⟨positive, listed⟩)
      simp [isRegistered, Multiplexer.unregister_handler] at still
    · intro open_
      exact absurd closed open_
  · simp only [readTcpFd, if_neg closed, clientsHandleRead, if_neg positive]
    exact iff_of_true agree closed

theorem step_agrees (incoming : Incoming) (possible : engine.Possible incoming) :
    (engine.step incoming).Agree ↔ incoming.Succeeds := by
  cases incoming with
  | server newFd => exact accept_agrees engine agree newFd possible
  | client fd size => exact receive_agrees engine agree fd size possible

theorem run_agrees (incomings : List Incoming) (possible : engine.PossibleRun incomings) :
    (∀ past later, incomings = past ++ later → (past.foldl step engine).Agree) ↔ ∀ incoming ∈ incomings, incoming.Succeeds := by
  induction incomings generalizing engine with
  | nil =>
      constructor
      · intro _ incoming member
        exact absurd member List.not_mem_nil
      · intro _ past later split
        obtain ⟨rfl, _⟩ := List.append_eq_nil_iff.mp split.symm
        exact agree
  | cons incoming rest ih =>
      obtain ⟨here, others⟩ := possible
      have first := step_agrees engine agree incoming here
      constructor
      · intro always
        have next := always [incoming] rest rfl
        have later := (ih (engine.step incoming) next others).mp
          fun past later split => always (incoming :: past) later (by simp [split])
        exact List.forall_mem_cons.mpr ⟨first.mp next, later⟩
      · intro succeed past later split
        obtain ⟨now, rests⟩ := List.forall_mem_cons.mp succeed
        cases past with
        | nil => exact agree
        | cons taken past =>
            obtain ⟨rfl, rest_⟩ := List.cons.inj split
            exact (ih (engine.step incoming) (first.mpr now) others).mpr rests past later rest_

end Engine

theorem start_agrees (serverFd : Int) : (Engine.start serverFd).Agree := by
  intro fd
  have only : (Engine.start serverFd).isRegistered fd = true → fd = serverFd := by
    intro registered
    rw [Engine.isRegistered, Engine.start] at registered
    split at registered
    · rw [Multiplexer.register_handler, new_handler] at registered
      by_contra other
      simp [Call.registers, Ne.symm other] at registered
    · rw [new_handler] at registered
      contradiction
  constructor
  · intro member
    exact absurd member (Finset.notMem_empty fd)
  · intro both
    exact absurd (only both.2) both.1

theorem clients_agree_iff (serverFd : Int) (incomings : List Incoming) (possible : (Engine.start serverFd).PossibleRun incomings) :
    (∀ past later, incomings = past ++ later → (past.foldl Engine.step (.start serverFd)).Agree) ↔
      ∀ incoming ∈ incomings, incoming.Succeeds :=
  Engine.run_agrees (.start serverFd) (start_agrees serverFd) incomings possible

theorem clients_agree_iff_accepted :
    (∀ past later, [Incoming.server 5, .client 5 9, .server 6] = past ++ later → (past.foldl Engine.step (.start 4)).Agree) ↔
      ∀ incoming ∈ [Incoming.server 5, .client 5 9, .server 6], incoming.Succeeds := by
  apply clients_agree_iff
  refine ⟨⟨rfl, .inr ⟨by decide, rfl⟩⟩, ⟨by decide, rfl⟩, ⟨rfl, .inr ⟨by decide, rfl⟩⟩, trivial⟩

theorem closed_client_stays :
    (Engine.start 4).PossibleRun [.server 5, .client 5 0] ∧
      ¬ ([Incoming.server 5, .client 5 0].foldl Engine.step (.start 4)).Agree := by
  refine ⟨⟨⟨rfl, .inr ⟨by decide, rfl⟩⟩, ⟨by decide, rfl⟩, trivial⟩, ?_⟩
  intro agrees
  have listed : (5 : Int) ∈ ([Incoming.server 5, .client 5 0].foldl Engine.step (.start 4)).clients := by decide
  have live := (agrees 5).mp listed
  exact absurd live.2 (by decide)

end Libx.Mam

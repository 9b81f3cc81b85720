import Mathlib.Data.List.Basic
import Mathlib.Data.List.Induction
import Mathlib.Logic.Function.Basic

set_option autoImplicit false

namespace Libx.Mam

variable {Context Handler : Type}

-- fd_t: null pointers are none.
structure Slot (Context Handler : Type) where
  context : Option Context
  handler : Option Handler

def Slot.empty : Slot Context Handler := ⟨none, none⟩

-- _fd and _no_active_fd; the calls to epoll, shutdown and close do not touch them.
structure Multiplexer (Context Handler : Type) where
  fds : List (Slot Context Handler)
  active : Nat

namespace Multiplexer

def new : Multiplexer Context Handler := ⟨List.replicate 32 .empty, 0⟩

def grown (multiplexer : Multiplexer Context Handler) (fd : Nat) : List (Slot Context Handler) :=
  let size := multiplexer.fds.length
  if size ≤ fd then multiplexer.fds ++ List.replicate (max (fd + 1) (size * 2) - size) .empty else multiplexer.fds

def handlerAt (multiplexer : Multiplexer Context Handler) (fd : Int) : Option Handler :=
  if fd < 0 then none else multiplexer.fds[fd.toNat]?.bind Slot.handler

def registerFd (fd : Int) (context : Option Context) (handler : Option Handler) (multiplexer : Multiplexer Context Handler) :
    Multiplexer Context Handler :=
  if fd < 0 ∨ context.isNone ∨ handler.isNone then multiplexer
  else ⟨(multiplexer.grown fd.toNat).set fd.toNat ⟨context, handler⟩, multiplexer.active + 1⟩

def unregisterCloseFd (fd : Int) (multiplexer : Multiplexer Context Handler) : Multiplexer Context Handler :=
  if fd < 0 ∨ multiplexer.fds.length ≤ fd.toNat ∨ (multiplexer.handlerAt fd).isNone then multiplexer
  else ⟨multiplexer.fds.set fd.toNat .empty, multiplexer.active - 1⟩

def registered (multiplexer : Multiplexer Context Handler) : Nat := multiplexer.fds.countP fun slot => slot.handler.isSome

end Multiplexer

inductive Call (Context Handler : Type) where
  | register (fd : Int) (context : Option Context) (handler : Option Handler)
  | unregister (fd : Int)

namespace Call

def apply (multiplexer : Multiplexer Context Handler) : Call Context Handler → Multiplexer Context Handler
  | register fd context handler => multiplexer.registerFd fd context handler
  | unregister fd => multiplexer.unregisterCloseFd fd

def registers (fd : Int) : Call Context Handler → Bool
  | register target context handler => target = fd ∧ 0 ≤ target ∧ context.isSome ∧ handler.isSome
  | unregister _ => false

def releases (fd : Int) : Call Context Handler → Bool
  | register _ _ _ => false
  | unregister target => target = fd

def leaves (fd : Int) (was : Bool) (call : Call Context Handler) : Bool := call.registers fd || was && !call.releases fd

end Call

def runCalls (calls : List (Call Context Handler)) (multiplexer : Multiplexer Context Handler) : Multiplexer Context Handler :=
  calls.foldl Call.apply multiplexer

def leftRegistered (fd : Int) (was : Bool) (calls : List (Call Context Handler)) : Bool := calls.foldl (Call.leaves fd) was

namespace Multiplexer

variable (multiplexer : Multiplexer Context Handler)

theorem grown_longer (fd : Nat) : fd < (multiplexer.grown fd).length := by
  rw [grown]
  by_cases short : multiplexer.fds.length ≤ fd
  · simp only [if_pos short, List.length_append, List.length_replicate]
    omega
  · simp only [if_neg short]
    omega

theorem grown_handler (fd other : Nat) : (multiplexer.grown fd)[other]?.bind Slot.handler = multiplexer.fds[other]?.bind Slot.handler := by
  rw [grown]
  by_cases short : multiplexer.fds.length ≤ fd
  · simp only [if_pos short, List.getElem?_append]
    by_cases inside : other < multiplexer.fds.length
    · rw [if_pos inside]
    · rw [if_neg inside, List.getElem?_eq_none (Nat.le_of_not_lt inside), List.getElem?_replicate]
      split <;> rfl
  · simp only [if_neg short]

theorem grown_count (fd : Nat) :
    (multiplexer.grown fd).countP (fun slot => slot.handler.isSome) = multiplexer.registered := by
  rw [grown, registered]
  by_cases short : multiplexer.fds.length ≤ fd
  · simp [short, List.countP_append, List.countP_replicate, Slot.empty]
  · simp only [if_neg short]

theorem register_handler (fd other : Int) (context : Option Context) (handler : Option Handler) :
    (multiplexer.registerFd fd context handler).handlerAt other =
      if (Call.register fd context handler).registers other then handler else multiplexer.handlerAt other := by
  rw [registerFd]
  by_cases refused : fd < 0 ∨ context.isNone ∨ handler.isNone
  · rw [if_pos refused, if_neg]
    simp only [Call.registers, decide_eq_true_eq]
    intro accepted
    rcases refused with negative | noContext | noHandler
    · omega
    · simp_all
    · simp_all
  · rw [if_neg refused]
    simp only [not_or, Option.isNone_iff_eq_none, ← Option.isSome_iff_ne_none] at refused
    by_cases same : fd = other
    · subst same
      have accepted : (Call.register fd context handler).registers fd = true := by
        simp [Call.registers, refused]
        omega
      rw [if_pos accepted, handlerAt, if_neg refused.1, List.getElem?_set_self (grown_longer multiplexer fd.toNat)]
      rfl
    · have others : (Call.register fd context handler).registers other = false := by simp [Call.registers, same]
      rw [others, handlerAt, handlerAt]
      by_cases negative : other < 0
      · simp [negative]
      · have apart : fd.toNat ≠ other.toNat := by omega
        simp only [if_neg negative, List.getElem?_set_ne apart, grown_handler]
        rfl

theorem handler_inside (fd : Int) (held : (multiplexer.handlerAt fd).isSome = true) :
    ¬ fd < 0 ∧ ∃ inside : fd.toNat < multiplexer.fds.length, multiplexer.fds[fd.toNat].handler = multiplexer.handlerAt fd := by
  rw [handlerAt] at held ⊢
  by_cases negative : fd < 0
  · simp [negative] at held
  · rw [if_neg negative] at held ⊢
    by_cases inside : fd.toNat < multiplexer.fds.length
    · exact ⟨negative, inside, by simp [inside]⟩
    · simp [List.getElem?_eq_none (Nat.le_of_not_lt inside)] at held

theorem unregister_handler (fd other : Int) :
    (multiplexer.unregisterCloseFd fd).handlerAt other = if fd = other then none else multiplexer.handlerAt other := by
  by_cases held : (multiplexer.handlerAt fd).isSome = true
  · obtain ⟨positive, inside, _⟩ := handler_inside multiplexer fd held
    have accepted : ¬ (fd < 0 ∨ multiplexer.fds.length ≤ fd.toNat ∨ (multiplexer.handlerAt fd).isNone) := by
      simp [positive, Nat.not_le.mpr inside, Option.isSome_iff_ne_none.mp held]
    rw [unregisterCloseFd, if_neg accepted]
    by_cases same : fd = other
    · subst same
      rw [if_pos rfl, handlerAt, if_neg positive, List.getElem?_set_self inside]
      rfl
    · rw [if_neg same, handlerAt, handlerAt]
      by_cases negative : other < 0
      · simp [negative]
      · have apart : fd.toNat ≠ other.toNat := by omega
        simp only [if_neg negative, List.getElem?_set_ne apart]
  · have absent : multiplexer.handlerAt fd = none := by simpa using held
    rw [unregisterCloseFd, if_pos (.inr (.inr (by simp [absent])))]
    by_cases same : fd = other
    · rw [if_pos same, ← same, absent]
    · rw [if_neg same]

theorem register_counts (fd : Int) (context : Option Context) (handler : Option Handler)
    (accepted : (Call.register fd context handler).registers fd = true) :
    (multiplexer.registerFd fd context handler).active = multiplexer.active + 1 ∧
      (multiplexer.registerFd fd context handler).registered + (if (multiplexer.handlerAt fd).isSome then 1 else 0) =
        multiplexer.registered + 1 := by
  simp only [Call.registers, decide_eq_true_eq] at accepted
  obtain ⟨_, positive, hasContext, hasHandler⟩ := accepted
  have taken : ¬ (fd < 0 ∨ context.isNone ∨ handler.isNone) := by
    simp [Int.not_lt.mpr positive, Option.isSome_iff_ne_none.mp hasContext, Option.isSome_iff_ne_none.mp hasHandler]
  have longer := grown_longer multiplexer fd.toNat
  have before : (multiplexer.handlerAt fd).isSome = ((multiplexer.grown fd.toNat)[fd.toNat]).handler.isSome := by
    rw [handlerAt, if_neg (Int.not_lt.mpr positive), ← grown_handler, List.getElem?_eq_getElem longer]
    rfl
  rw [registerFd, if_neg taken]
  refine ⟨rfl, ?_⟩
  rw [before, registered, List.countP_set longer, grown_count]
  have counted : (multiplexer.grown fd.toNat)[fd.toNat].handler.isSome = true →
      0 < (multiplexer.grown fd.toNat).countP fun slot => slot.handler.isSome :=
    fun here => List.countP_pos_iff.mpr ⟨_, List.getElem_mem longer, here⟩
  rw [grown_count] at counted
  simp only [hasHandler, if_true]
  split
  · rename_i here
    have := counted here
    omega
  · omega

theorem register_refused (fd : Int) (context : Option Context) (handler : Option Handler)
    (refused : (Call.register fd context handler).registers fd = false) :
    multiplexer.registerFd fd context handler = multiplexer := by
  rw [registerFd, if_pos]
  by_contra taken
  simp only [not_or, Option.isNone_iff_eq_none, ← Option.isSome_iff_ne_none] at taken
  have positive : 0 ≤ fd := Int.not_lt.mp taken.1
  simp [Call.registers, positive, taken.2] at refused

theorem unregister_counts (fd : Int) :
    (multiplexer.unregisterCloseFd fd).active = multiplexer.active - (if (multiplexer.handlerAt fd).isSome then 1 else 0) ∧
      (multiplexer.unregisterCloseFd fd).registered =
        multiplexer.registered - (if (multiplexer.handlerAt fd).isSome then 1 else 0) ∧
      ((multiplexer.handlerAt fd).isSome = true → 0 < multiplexer.registered) := by
  by_cases held : (multiplexer.handlerAt fd).isSome = true
  · obtain ⟨positive, inside, here⟩ := handler_inside multiplexer fd held
    have accepted : ¬ (fd < 0 ∨ multiplexer.fds.length ≤ fd.toNat ∨ (multiplexer.handlerAt fd).isNone) := by
      simp [positive, Nat.not_le.mpr inside, Option.isSome_iff_ne_none.mp held]
    have counted : 0 < multiplexer.registered := List.countP_pos_iff.mpr ⟨_, List.getElem_mem inside, by rw [here]; exact held⟩
    rw [unregisterCloseFd, if_neg accepted]
    refine ⟨by rw [if_pos held], ?_, fun _ => counted⟩
    rw [registered, List.countP_set inside, here]
    rfl
  · have absent : multiplexer.handlerAt fd = none := by simpa using held
    rw [unregisterCloseFd, if_pos (.inr (.inr (by simp [absent])))]
    simp [absent]

end Multiplexer

theorem call_handlers (multiplexer : Multiplexer Context Handler) (call : Call Context Handler) (fd : Int) :
    ((call.apply multiplexer).handlerAt fd).isSome = call.leaves fd (multiplexer.handlerAt fd).isSome := by
  cases call with
  | register target context handler =>
      rw [Call.apply, Multiplexer.register_handler, Call.leaves]
      by_cases accepted : (Call.register target context handler).registers fd = true
      · have hasHandler : handler.isSome = true := by simp_all [Call.registers]
        simp [accepted, hasHandler]
      · simp [accepted, Call.releases]
  | unregister target =>
      rw [Call.apply, Multiplexer.unregister_handler, Call.leaves]
      by_cases same : target = fd
      · simp [same, Call.registers, Call.releases]
      · simp [same, Call.registers, Call.releases]

theorem run_handlers (calls : List (Call Context Handler)) (multiplexer : Multiplexer Context Handler) (fd : Int) :
    ((runCalls calls multiplexer).handlerAt fd).isSome = leftRegistered fd (multiplexer.handlerAt fd).isSome calls := by
  induction calls generalizing multiplexer with
  | nil => rfl
  | cons call rest ih =>
      rw [runCalls, List.foldl_cons, leftRegistered, List.foldl_cons, ← call_handlers]
      exact ih (call.apply multiplexer)

theorem call_drifts (multiplexer : Multiplexer Context Handler) (call : Call Context Handler)
    (atLeast : multiplexer.registered ≤ multiplexer.active) :
    (call.apply multiplexer).registered ≤ (call.apply multiplexer).active ∧
      ((call.apply multiplexer).active = (call.apply multiplexer).registered ↔
        multiplexer.active = multiplexer.registered ∧
          ∀ fd, call.registers fd = true → (multiplexer.handlerAt fd).isSome = false) := by
  cases call with
  | register target context handler =>
      rw [Call.apply]
      have own (fd : Int) (registers : (Call.register target context handler).registers fd = true) : target = fd := by
        simp_all [Call.registers]
      by_cases accepted : (Call.register target context handler).registers target = true
      · obtain ⟨active, registered⟩ := Multiplexer.register_counts multiplexer target context handler accepted
        have only : (∀ fd, (Call.register target context handler).registers fd = true → (multiplexer.handlerAt fd).isSome = false) ↔
            (multiplexer.handlerAt target).isSome = false :=
          ⟨fun all => all target accepted, fun here fd registers => own fd registers ▸ here⟩
        rw [only]
        by_cases held : (multiplexer.handlerAt target).isSome = true
        · rw [if_pos held] at registered
          simp only [held, Bool.true_eq_false, and_false, iff_false]
          omega
        · rw [if_neg held] at registered
          simp only [held, and_true]
          omega
      · rw [Multiplexer.register_refused multiplexer target context handler (by simpa using accepted)]
        refine ⟨atLeast, ⟨fun same => ⟨same, ?_⟩, fun both => both.1⟩⟩
        intro fd registers
        exact absurd (own fd registers ▸ registers) accepted
  | unregister target =>
      rw [Call.apply]
      obtain ⟨active, registered, counted⟩ := Multiplexer.unregister_counts multiplexer target
      have none_ : ∀ fd, (Call.unregister target : Call Context Handler).registers fd = true →
          (multiplexer.handlerAt fd).isSome = false := by simp [Call.registers]
      rw [active, registered, and_iff_left none_]
      split
      · rename_i held
        have := counted held
        omega
      · omega

def NoneTwice (calls : List (Call Context Handler)) : Prop :=
  ∀ before call after, calls = before ++ call :: after → ∀ fd, call.registers fd = true → leftRegistered fd false before = false

theorem none_twice_concat (calls : List (Call Context Handler)) (call : Call Context Handler) :
    NoneTwice (calls ++ [call]) ↔ NoneTwice calls ∧ ∀ fd, call.registers fd = true → leftRegistered fd false calls = false := by
  constructor
  · intro noneTwice
    refine ⟨?_, fun fd registers => noneTwice calls call [] rfl fd registers⟩
    intro before earlier after split fd registers
    exact noneTwice before earlier (after ++ [call]) (by simp [split]) fd registers
  · intro both before last after split fd registers
    cases after using List.reverseRecOn with
    | nil =>
        obtain ⟨same, last_⟩ := List.append_inj' split rfl
        obtain rfl := List.singleton_inj.mp last_
        exact same ▸ both.2 fd registers
    | append_singleton after tail =>
        rw [← List.cons_append, ← List.append_assoc] at split
        obtain ⟨same, _⟩ := List.append_inj' split rfl
        exact both.1 before last after same fd registers

theorem new_handler (fd : Int) : (Multiplexer.new : Multiplexer Context Handler).handlerAt fd = none := by
  rw [Multiplexer.handlerAt, Multiplexer.new]
  by_cases negative : fd < 0
  · rw [if_pos negative]
  · rw [if_neg negative, List.getElem?_replicate]
    split <;> rfl

theorem run_counts (calls : List (Call Context Handler)) :
    (runCalls calls .new).registered ≤ (runCalls calls .new).active ∧
      ((runCalls calls .new).active = (runCalls calls .new).registered ↔ NoneTwice calls) := by
  induction calls using List.reverseRecOn with
  | nil => simp [runCalls, Multiplexer.new, Multiplexer.registered, Slot.empty, NoneTwice]
  | append_singleton calls call ih =>
      have held (fd : Int) : ((runCalls calls .new).handlerAt fd).isSome = leftRegistered fd false calls := by
        rw [run_handlers, new_handler]
        rfl
      have drifts := call_drifts (runCalls calls .new) call ih.1
      rw [runCalls, List.foldl_concat, none_twice_concat]
      simp only [held] at drifts
      rw [← ih.2]
      exact drifts

theorem registered_zero (multiplexer : Multiplexer Context Handler) :
    multiplexer.registered = 0 ↔ ∀ fd, multiplexer.handlerAt fd = none := by
  rw [Multiplexer.registered, List.countP_eq_zero]
  constructor
  · intro empty fd
    cases held : multiplexer.handlerAt fd with
    | none => rfl
    | some handler =>
        obtain ⟨_, inside, here⟩ := Multiplexer.handler_inside multiplexer fd (by simp [held])
        have nothing := empty _ (List.getElem_mem inside)
        rw [here, held] at nothing
        exact absurd rfl nothing
  · intro empty slot member
    obtain ⟨idx, inside, rfl⟩ := List.mem_iff_getElem.mp member
    have nothing := empty idx
    rw [Multiplexer.handlerAt, if_neg (by omega), Int.toNat_natCast, List.getElem?_eq_getElem inside] at nothing
    simpa using nothing

-- The condition of the loop in run() is 0 < active.
theorem active_exact_iff (calls : List (Call Context Handler)) :
    ((runCalls calls .new).active = (runCalls calls .new).registered ∧
      (0 < (runCalls calls .new).active ↔ ∃ fd, (runCalls calls .new).handlerAt fd ≠ none)) ↔ NoneTwice calls := by
  have exact_ := (run_counts calls).2
  have empty := registered_zero (runCalls calls .new)
  constructor
  · intro both
    exact exact_.mp both.1
  · intro noneTwice
    have same := exact_.mpr noneTwice
    refine ⟨same, ?_⟩
    rw [same, Nat.pos_iff_ne_zero, Ne, empty, not_forall]

theorem registered_twice_spins :
    (runCalls [.register 5 (some ()) (some ()), .register 5 (some ()) (some ()), .unregister 5] .new).active = 1 ∧
      (runCalls [.register 5 (some ()) (some ()), .register 5 (some ()) (some ()), .unregister 5] .new).registered = 0 := by
  decide

end Libx.Mam

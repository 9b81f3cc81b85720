import Mathlib.Data.List.Basic

set_option autoImplicit false

-- Computations that stop at the first fault.
namespace Libx.Fallible

variable {ε α β σ ι : Type}

@[simp] theorem pure_eq_ok (value : α) : (pure value : Except ε α) = .ok value := rfl
@[simp] theorem ok_bind (value : α) (next : α → Except ε β) : (Except.ok value >>= next) = next value := rfl
@[simp] theorem error_bind (fault : ε) (next : α → Except ε β) : (Except.error fault >>= next) = .error fault := rfl
@[simp] theorem ok_map (value : α) (f : α → β) : (.ok value : Except ε α).map f = .ok (f value) := rfl
@[simp] theorem error_map (fault : ε) (f : α → β) : (.error fault : Except ε α).map f = .error fault := rfl

theorem bind_ok_iff (first : Except ε α) (next : α → Except ε β) (result : β) :
    (first >>= next) = .ok result ↔ ∃ value, first = .ok value ∧ next value = .ok result := by
  cases first with
  | error fault => simp
  | ok value => simp

theorem bind_error_iff (first : Except ε α) (next : α → Except ε β) (fault : ε) :
    (first >>= next) = .error fault ↔ first = .error fault ∨ ∃ value, first = .ok value ∧ next value = .error fault := by
  cases first with
  | error other => simp
  | ok value => simp

theorem map_ok_iff (first : Except ε α) (f : α → β) (result : β) :
    first.map f = .ok result ↔ ∃ value, first = .ok value ∧ f value = result := by
  cases first with
  | error fault => simp
  | ok value => simp

def run (step : ι → σ → Except ε σ) : List ι → σ → Except ε σ
  | [], state => .ok state
  | input :: inputs, state => step input state >>= run step inputs

variable (step : ι → σ → Except ε σ)

theorem run_ok_cons (input : ι) (inputs : List ι) (state next : σ) (taken : step input state = .ok next) :
    run step (input :: inputs) state = run step inputs next := by
  rw [run, taken, ok_bind]

theorem run_error_cons (input : ι) (inputs : List ι) (state : σ) (fault : ε) (taken : step input state = .error fault) :
    run step (input :: inputs) state = .error fault := by
  rw [run, taken, error_bind]

theorem run_invariant {α : Type} (advance : α → ι → α) (holds : α → σ → Prop)
    (kept : ∀ summary input state next, holds summary state → step input state = .ok next → holds (advance summary input) next)
    (inputs : List ι) (summary : α) (state last : σ) (start : holds summary state)
    (completed : run step inputs state = .ok last) : holds (inputs.foldl advance summary) last := by
  induction inputs generalizing summary state with
  | nil =>
      obtain rfl : state = last := Except.ok.inj completed
      exact start
  | cons input inputs ih =>
      obtain ⟨next, taken, rest⟩ := (bind_ok_iff (step input state) (run step inputs) last).mp completed
      exact ih (advance summary input) next (kept summary input state next start taken) rest

theorem run_along (holds : List ι → σ → Prop)
    (kept : ∀ past input state next, holds past state → step input state = .ok next → holds (past ++ [input]) next)
    (inputs past : List ι) (state last : σ) (start : holds past state) (completed : run step inputs state = .ok last) :
    holds (past ++ inputs) last := by
  induction inputs generalizing past state with
  | nil =>
      obtain rfl : state = last := Except.ok.inj completed
      simpa using start
  | cons input inputs ih =>
      obtain ⟨next, taken, rest⟩ := (bind_ok_iff (step input state) (run step inputs) last).mp completed
      rw [List.append_cons]
      exact ih (past ++ [input]) next (kept past input state next start taken) rest

def Always (holds : σ → Prop) : List ι → σ → Prop
  | [], state => holds state
  | input :: inputs, state => holds state ∧ ∃ next, step input state = .ok next ∧ Always holds inputs next

def Each (allowed : σ → ι → Prop) : List ι → σ → Prop
  | [], _ => True
  | input :: inputs, state => allowed state input ∧ ∀ next, step input state = .ok next → Each allowed inputs next

theorem always_start (holds : σ → Prop) (inputs : List ι) (state : σ) (always : Always step holds inputs state) : holds state := by
  cases inputs with
  | nil => exact always
  | cons input inputs => exact always.1

theorem always_iff_each (invariant holds : σ → Prop) (legal harmless : σ → ι → Prop)
    (sound : ∀ state, invariant state → holds state)
    (exact_ : ∀ state input, invariant state → legal state input →
      ((∃ next, step input state = .ok next ∧ holds next) ↔ harmless state input))
    (kept : ∀ state input next, invariant state → legal state input → harmless state input → step input state = .ok next →
      invariant next)
    (inputs : List ι) (state : σ) (start : invariant state) (legals : Each step legal inputs state) :
    Always step holds inputs state ↔ Each step harmless inputs state := by
  induction inputs generalizing state with
  | nil => exact iff_of_true (sound state start) trivial
  | cons input inputs ih =>
      obtain ⟨legalHere, legalLater⟩ := legals
      have here := exact_ state input start legalHere
      constructor
      · rintro ⟨-, next, taken, later⟩
        have harmlessHere := here.mp ⟨next, taken, always_start step holds inputs next later⟩
        refine ⟨harmlessHere, fun other takenOther => ?_⟩
        obtain rfl : next = other := Except.ok.inj (taken.symm.trans takenOther)
        exact (ih next (kept state input next start legalHere harmlessHere taken) (legalLater next taken)).mp later
      · rintro ⟨harmlessHere, later⟩
        obtain ⟨next, taken, -⟩ := here.mpr harmlessHere
        have good := kept state input next start legalHere harmlessHere taken
        exact ⟨sound state start, next, taken, (ih next good (legalLater next taken)).mpr (later next taken)⟩

end Libx.Fallible

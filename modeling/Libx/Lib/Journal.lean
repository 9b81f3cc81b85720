import Libx.Lib.Fallible

set_option autoImplicit false

-- A state machine that writes down what it does, and the reader that rebuilds
-- the state from what was written.
namespace Libx.Journal

variable {ε σ ι η ρ : Type}

def replay (apply : η → ρ → Option ρ) : List η → ρ → Option ρ
  | [], rebuilt => some rebuilt
  | event :: events, rebuilt => (apply event rebuilt).bind (replay apply events)

def runLogged (step : ι → σ → Except ε (σ × List η)) : List ι → σ → Except ε (σ × List η)
  | [], state => .ok (state, [])
  | input :: inputs, state => do
      let (next, written) ← step input state
      let (last, later) ← runLogged step inputs next
      return (last, written ++ later)

theorem replay_one (apply : η → ρ → Option ρ) (event : η) (rebuilt : ρ) : replay apply [event] rebuilt = apply event rebuilt := by
  rw [replay]
  cases apply event rebuilt <;> rfl

theorem replay_append (apply : η → ρ → Option ρ) (first second : List η) (rebuilt : ρ) :
    replay apply (first ++ second) rebuilt = (replay apply first rebuilt).bind (replay apply second) := by
  induction first generalizing rebuilt with
  | nil => rfl
  | cons event first ih =>
      simp only [List.cons_append, replay]
      cases apply event rebuilt with
      | none => rfl
      | some next => exact ih next

theorem replay_append_some (apply : η → ρ → Option ρ) (first second : List η) (rebuilt middle : ρ)
    (reaches : replay apply first rebuilt = some middle) :
    replay apply (first ++ second) rebuilt = replay apply second middle := by
  rw [replay_append, reaches, Option.bind_some]

theorem run_logged_cons (step : ι → σ → Except ε (σ × List η)) (input : ι) (inputs : List ι) (state last : σ)
    (written : List η) (run : runLogged step (input :: inputs) state = .ok (last, written)) :
    ∃ next here later, step input state = .ok (next, here) ∧ runLogged step inputs next = .ok (last, later) ∧
      written = here ++ later := by
  obtain ⟨⟨next, here⟩, taken, rest⟩ := (Fallible.bind_ok_iff _ _ _).mp run
  obtain ⟨⟨end_, later⟩, others, result⟩ := (Fallible.bind_ok_iff _ _ _).mp rest
  obtain ⟨rfl, rfl⟩ := Prod.mk.inj (Except.ok.inj result)
  exact ⟨next, here, later, taken, others, rfl⟩

theorem run_logged_state {κ : Type} (plain : κ → σ → Except ε σ) (forget : ι → κ) (step : ι → σ → Except ε (σ × List η))
    (same : ∀ input state, (step input state).map Prod.fst = plain (forget input) state) (inputs : List ι) (state : σ) :
    (runLogged step inputs state).map Prod.fst = Fallible.run plain (inputs.map forget) state := by
  induction inputs generalizing state with
  | nil => rfl
  | cons input inputs ih =>
      have here := same input state
      rw [runLogged, List.map_cons, Fallible.run, ← here]
      cases step input state with
      | error fault => rfl
      | ok taken =>
          obtain ⟨next, written⟩ := taken
          simp only [Fallible.ok_bind, Fallible.ok_map]
          rw [← ih next]
          cases runLogged step inputs next <;> rfl

theorem run_logged_replays (step : ι → σ → Except ε (σ × List η)) (apply : η → ρ → Option ρ) (view : σ → ρ)
    (invariant : σ → Prop) (allowed : ι → Prop) (wellFormed : η → Prop)
    (kept : ∀ input state next written, allowed input → invariant state → step input state = .ok (next, written) →
      invariant next ∧ replay apply written (view state) = some (view next) ∧ ∀ event ∈ written, wellFormed event)
    (inputs : List ι) (legal : ∀ input ∈ inputs, allowed input) (state last : σ) (written : List η) (start : invariant state)
    (run : runLogged step inputs state = .ok (last, written)) :
    replay apply written (view state) = some (view last) ∧ ∀ event ∈ written, wellFormed event := by
  induction inputs generalizing state written with
  | nil =>
      obtain ⟨rfl, rfl⟩ := Prod.mk.inj (Except.ok.inj run)
      exact ⟨rfl, fun _ absent => absurd absent List.not_mem_nil⟩
  | cons input inputs ih =>
      obtain ⟨next, here, later, taken, others, rfl⟩ := run_logged_cons step input inputs state last written run
      obtain ⟨good, rebuilt, forms⟩ := kept input state next here (legal input List.mem_cons_self) start taken
      obtain ⟨behind, laterForms⟩ := ih (fun other member => legal other (List.mem_cons_of_mem _ member)) next later good others
      refine ⟨(replay_append_some apply here later _ _ rebuilt).trans behind, fun event member => ?_⟩
      exact (List.mem_append.mp member).elim (forms event) (laterForms event)

end Libx.Journal

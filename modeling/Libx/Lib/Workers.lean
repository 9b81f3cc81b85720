import Mathlib.Data.List.Basic
import Mathlib.Data.List.Induction
import Mathlib.Logic.Function.Iterate

set_option autoImplicit false

-- Workers that take turns on one memory, in any order. Each writes only what it
-- owns and reads nothing that another one owns.
namespace Libx.Workers

variable {P L A V : Type}

variable (step : P → L → (A → V) → L × (A → V))

def alone (p : P) (n : Nat) (start : L × (A → V)) : L × (A → V) := (fun state => step p state.1 state.2)^[n] start

theorem alone_succ (p : P) (n : Nat) (start : L × (A → V)) :
    alone step p (n + 1) start = step p (alone step p n start).1 (alone step p n start).2 := by
  rw [alone, Function.iterate_succ_apply', ← alone]

structure Confined (owner : A → Option P) (inv : P → L → Prop) : Prop where
  kept : ∀ p l m, inv p l → inv p (step p l m).1
  writes : ∀ p l m a, inv p l → owner a ≠ some p → (step p l m).2 a = m a
  reads : ∀ p l m m', inv p l → (∀ a, owner a = none ∨ owner a = some p → m a = m' a) →
    (step p l m).1 = (step p l m').1 ∧ ∀ a, owner a = some p → (step p l m).2 a = (step p l m').2 a

section Alone

variable {step} {owner : A → Option P} {inv : P → L → Prop} (confined : Confined step owner inv)
include confined

theorem alone_kept (p : P) (n : Nat) (start : L × (A → V)) (good : inv p start.1) : inv p (alone step p n start).1 := by
  induction n with
  | zero => exact good
  | succ n ih =>
      rw [alone_succ]
      exact confined.kept p _ _ ih

theorem alone_elsewhere (p : P) (n : Nat) (start : L × (A → V)) (good : inv p start.1) (a : A) (apart : owner a ≠ some p) :
    (alone step p n start).2 a = start.2 a := by
  induction n with
  | zero => rfl
  | succ n ih =>
      rw [alone_succ, confined.writes p _ _ a (alone_kept confined p n start good) apart, ih]

end Alone

section Finished

variable {step} (finished : L → Prop) (rests : ∀ p l m, finished l → step p l m = (l, m))
include rests

theorem alone_rests (p : P) (n more : Nat) (start : L × (A → V)) (done : finished (alone step p n start).1) :
    alone step p (n + more) start = alone step p n start := by
  induction more with
  | zero => rfl
  | succ more ih => rw [← Nat.add_assoc, alone_succ, ih, rests p _ _ done]

theorem alone_unique (p : P) (n n' : Nat) (start : L × (A → V)) (done : finished (alone step p n start).1)
    (done' : finished (alone step p n' start).1) : alone step p n start = alone step p n' start := by
  rcases Nat.le_total n n' with before | before
  · obtain ⟨more, rfl⟩ := Nat.exists_eq_add_of_le before
    exact (alone_rests finished rests p n more start done).symm
  · obtain ⟨more, rfl⟩ := Nat.exists_eq_add_of_le before
    exact alone_rests finished rests p n' more start done'

end Finished

structure World (P L A V : Type) where
  locals : P → L
  memory : A → V

variable [DecidableEq P]

def turn (p : P) (world : World P L A V) : World P L A V :=
  ⟨Function.update world.locals p (step p (world.locals p) world.memory).1, (step p (world.locals p) world.memory).2⟩

def run (schedule : List P) (world : World P L A V) : World P L A V := schedule.foldl (fun world p => turn step p world) world

theorem run_snoc (schedule : List P) (p : P) (world : World P L A V) :
    run step (schedule ++ [p]) world = turn step p (run step schedule world) := by
  rw [run, List.foldl_append]
  rfl

theorem run_append (first second : List P) (world : World P L A V) :
    run step (first ++ second) world = run step second (run step first world) := List.foldl_append

theorem run_replicate (p : P) (n : Nat) (world : World P L A V) :
    run step (List.replicate n p) world =
      ⟨Function.update world.locals p (alone step p n (world.locals p, world.memory)).1,
        (alone step p n (world.locals p, world.memory)).2⟩ := by
  induction n with
  | zero =>
      show world = ⟨Function.update world.locals p (world.locals p), world.memory⟩
      rw [Function.update_eq_self]
  | succ n ih =>
      rw [List.replicate_succ', run_snoc, ih, turn, alone_succ]
      simp only [Function.update_self, Function.update_idem]

section Confinement

variable {step} {owner : A → Option P} {inv : P → L → Prop} (confined : Confined step owner inv)
include confined

theorem run_alone (schedule : List P) (world : World P L A V) (good : ∀ p, inv p (world.locals p)) :
    (∀ p, (run step schedule world).locals p = (alone step p (schedule.count p) (world.locals p, world.memory)).1 ∧
      ∀ a, owner a = some p →
        (run step schedule world).memory a = (alone step p (schedule.count p) (world.locals p, world.memory)).2 a) ∧
    ∀ a, owner a = none → (run step schedule world).memory a = world.memory a := by
  induction schedule using List.reverseRecOn with
  | nil => exact ⟨fun p => ⟨rfl, fun _ _ => rfl⟩, fun _ _ => rfl⟩
  | append_singleton schedule q ih =>
      obtain ⟨own, free⟩ := ih
      have now : inv q ((run step schedule world).locals q) := by
        rw [(own q).1]
        exact alone_kept confined q _ _ (good q)
      have seen : ∀ a, owner a = none ∨ owner a = some q →
          (run step schedule world).memory a = (alone step q (schedule.count q) (world.locals q, world.memory)).2 a := by
        rintro a (nobody | mine)
        · rw [free a nobody, alone_elsewhere confined q _ _ (good q) a (by rw [nobody]; exact nofun)]
        · exact (own q).2 a mine
      have same := confined.reads q _ _ _ now seen
      rw [run_snoc]
      refine ⟨fun p => ?_, fun a nobody => ?_⟩
      · rw [List.count_append, List.count_singleton]
        by_cases taken : q = p
        · obtain rfl := taken
          rw [if_pos (beq_self_eq_true q), alone_succ, ← (own q).1]
          exact ⟨(Function.update_self q _ _).trans same.1, same.2⟩
        · rw [if_neg (by simpa using taken), Nat.add_zero]
          refine ⟨(Function.update_of_ne (Ne.symm taken) _ _).trans (own p).1, fun a mine => ?_⟩
          rw [← (own p).2 a mine]
          exact confined.writes q _ _ a now (by rw [mine]; exact fun other => taken (Option.some.inj other).symm)
      · rw [← free a nobody]
        exact confined.writes q _ _ a now (by rw [nobody]; exact nofun)

theorem run_kept (schedule : List P) (world : World P L A V) (good : ∀ p, inv p (world.locals p)) (p : P) :
    inv p ((run step schedule world).locals p) := by
  rw [((run_alone confined schedule world good).1 p).1]
  exact alone_kept confined p _ _ (good p)

theorem run_unique (finished : L → Prop) (rests : ∀ p l m, finished l → step p l m = (l, m)) (first second : List P)
    (world : World P L A V) (good : ∀ p, inv p (world.locals p))
    (done : ∀ p, finished ((run step first world).locals p)) (done' : ∀ p, finished ((run step second world).locals p)) :
    (run step first world).memory = (run step second world).memory := by
  obtain ⟨own, free⟩ := run_alone confined first world good
  obtain ⟨own', free'⟩ := run_alone confined second world good
  funext a
  cases owned : owner a with
  | none => rw [free a owned, free' a owned]
  | some p =>
      rw [(own p).2 a owned, (own' p).2 a owned]
      have ends := done p
      have ends' := done' p
      rw [(own p).1] at ends
      rw [(own' p).1] at ends'
      rw [alone_unique finished rests p _ _ _ ends ends']

end Confinement

end Libx.Workers

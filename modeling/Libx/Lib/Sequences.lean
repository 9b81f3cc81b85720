import Mathlib.Data.List.Basic

set_option autoImplicit false

namespace Libx.Sequences

variable {α : Type}

def latest (p : α → Bool) (log : List α) : Option α := log.reverse.find? p

structure Linked (p : α → Bool) (log : List α) (link : Option Nat) : Prop where
  inside : ∀ position, link = some position → position < log.length
  points : link.bind (fun position => log[position]?) = latest p log

theorem latest_append (p : α → Bool) (log : List α) (x : α) :
    latest p (log ++ [x]) = if p x then some x else latest p log := by
  rw [latest, List.reverse_append, List.reverse_singleton, List.singleton_append, List.find?_cons]
  by_cases found : p x
  · simp [found]
  · simp [found, latest]

theorem linked_nil (p : α → Bool) : Linked p [] none := ⟨fun _ impossible => by simp at impossible, rfl⟩

theorem linked_new (p : α → Bool) (log : List α) (x : α) (found : p x) : Linked p (log ++ [x]) (some log.length) := by
  refine ⟨fun position same => ?_, ?_⟩
  · obtain rfl := Option.some.inj same
    simp
  · rw [latest_append, if_pos found]
    simp

theorem linked_old (p : α → Bool) (log : List α) (x : α) (link : Option Nat) (linked : Linked p log link) (other : ¬ p x) :
    Linked p (log ++ [x]) link := by
  refine ⟨fun position same => ?_, ?_⟩
  · have bound := linked.inside position same
    rw [List.length_append]
    exact Nat.lt_add_right 1 bound
  · rw [latest_append, if_neg other, ← linked.points]
    cases link with
    | none => rfl
    | some position => exact List.getElem?_append_left (linked.inside position rfl)

def sift (drops : α → α → Bool) : List α → List α
  | [] => []
  | [x] => [x]
  | x :: y :: rest => if drops x y then sift drops (y :: rest) else x :: sift drops (y :: rest)

theorem sift_kept (drops : α → α → Bool) (x : α) (rest : List α) (kept : ∀ y, rest.head? = some y → drops x y = false) :
    sift drops (x :: rest) = x :: sift drops rest := by
  cases rest with
  | nil => rfl
  | cons y rest => simp [sift, kept y rfl]

end Libx.Sequences

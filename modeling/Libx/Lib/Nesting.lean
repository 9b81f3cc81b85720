import Mathlib.Data.List.Basic

set_option autoImplicit false

-- Opening and closing marks with names, read with a stack of the open ones.
namespace Libx.Nesting

variable {N : Type}

inductive Mark (N : Type) where
  | opens (name : N)
  | closes (name : N)
deriving DecidableEq, Repr

inductive Nested : List (Mark N) → Prop where
  | nil : Nested []
  | group (name : N) (inside after : List (Mark N)) :
      Nested inside → Nested after → Nested (.opens name :: (inside ++ .closes name :: after))

theorem Nested.append {marks more : List (Mark N)} (first : Nested marks) (second : Nested more) : Nested (marks ++ more) := by
  induction first with
  | nil => exact second
  | group name inside after nested _ _ ih =>
      rw [List.cons_append, List.append_assoc, List.cons_append]
      exact .group name inside (after ++ more) nested ih

theorem Nested.wrap {inside : List (Mark N)} (name : N) (nested : Nested inside) :
    Nested ([.opens name] ++ inside ++ [.closes name]) := .group name inside [] nested .nil

variable [DecidableEq N]

def readMarks : List N → List (Mark N) → Option (List N)
  | stack, [] => some stack
  | stack, .opens name :: rest => readMarks (name :: stack) rest
  | [], .closes _ :: _ => none
  | top :: stack, .closes name :: rest => if top = name then readMarks stack rest else none

theorem nested_read (marks rest : List (Mark N)) (stack : List N) (nested : Nested marks) :
    readMarks stack (marks ++ rest) = readMarks stack rest := by
  induction nested generalizing stack rest with
  | nil => rfl
  | group name inside after _ _ inner outer =>
      rw [List.cons_append, List.append_assoc, List.cons_append, readMarks, inner, readMarks, if_pos rfl, outer]

theorem nested_closed (marks : List (Mark N)) (nested : Nested marks) : readMarks [] marks = some [] := by
  have whole := nested_read marks [] [] nested
  rwa [List.append_nil] at whole

end Libx.Nesting

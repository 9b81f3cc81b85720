import Mathlib.Data.List.Induction

set_option autoImplicit false

-- A queue of keys told from the history of its operations alone: a live arrival
-- remembers when its key came, and what it holds is read off the history since.
namespace Libx.Arrivals

variable {K : Type}

inductive Op (K : Type) where
  | add (key : K)
  | pop
deriving DecidableEq, Repr

structure Arrival (K : Type) where
  time : Nat
  key : K
deriving DecidableEq, Repr

section Queue

variable [BEq K]

def arrive (live : List (Arrival K)) (time : Nat) : Op K → List (Arrival K)
  | .add key => if live.any (·.key == key) then live else live ++ [⟨time, key⟩]
  | .pop => live.tail

def arrivals (ops : List (Op K)) : List (Arrival K) := ops.zipIdx.foldl (fun live op => arrive live op.2 op.1) []

def Op.adds (key : K) : Op K → Option K
  | .add other => if key == other then some other else none
  | .pop => none

def addsSince (ops : List (Op K)) (arrival : Arrival K) : List K := (ops.drop arrival.time).filterMap (Op.adds arrival.key)

def held (ops : List (Op K)) (arrival : Arrival K) : K × Nat :=
  ((addsSince ops arrival).getLastD arrival.key, (addsSince ops arrival).length)

def content (ops : List (Op K)) : List (K × Nat) := (arrivals ops).map (held ops)

@[simp] theorem arrivals_nil : arrivals ([] : List (Op K)) = [] := rfl

theorem arrivals_snoc (past : List (Op K)) (op : Op K) : arrivals (past ++ [op]) = arrive (arrivals past) past.length op := by
  rw [arrivals, arrivals, List.zipIdx_append, List.foldl_append]
  simp

theorem adds_same (key other : K) (found : K) (adds : Op.adds key (.add other) = some found) : found = other ∧ key == other := by
  rw [Op.adds] at adds
  split at adds
  case isTrue same => exact ⟨(Option.some.inj adds).symm, same⟩
  case isFalse => cases adds

theorem adds_since_snoc (past : List (Op K)) (op : Op K) (arrival : Arrival K) (inside : arrival.time ≤ past.length) :
    addsSince (past ++ [op]) arrival = addsSince past arrival ++ (op.adds arrival.key).toList := by
  rw [addsSince, addsSince, List.drop_append_of_le_length inside, List.filterMap_append]
  cases adds : op.adds arrival.key with
  | none => simp [adds]
  | some key => simp [adds]

theorem adds_since_same (ops : List (Op K)) (arrival : Arrival K) : ∀ key ∈ addsSince ops arrival, arrival.key == key := by
  intro key member
  obtain ⟨op, -, adds⟩ := List.mem_filterMap.mp member
  cases op with
  | add other =>
      obtain ⟨rfl, same⟩ := adds_same arrival.key other key adds
      exact same
  | pop => cases adds

theorem arrivals_added (ops : List (Op K)) : ∀ arrival ∈ arrivals ops, ops[arrival.time]? = some (.add arrival.key) := by
  induction ops using List.reverseRecOn with
  | nil => simp
  | append_singleton past op ih =>
      have old : ∀ arrival ∈ arrivals past, (past ++ [op])[arrival.time]? = some (.add arrival.key) := by
        intro arrival member
        have added := ih arrival member
        have inside : arrival.time < past.length := (List.getElem?_eq_some_iff.mp added).1
        rw [List.getElem?_append_left inside, added]
      rw [arrivals_snoc]
      cases op with
      | pop => exact fun arrival member => old arrival (List.mem_of_mem_tail member)
      | add key =>
          rw [arrive]
          split
          case isTrue => exact old
          case isFalse =>
            intro arrival member
            rcases List.mem_append.mp member with before | now
            · exact old arrival before
            · obtain rfl := List.mem_singleton.mp now
              simp

theorem arrivals_inside (ops : List (Op K)) (arrival : Arrival K) (member : arrival ∈ arrivals ops) : arrival.time < ops.length :=
  (List.getElem?_eq_some_iff.mp (arrivals_added ops arrival member)).1

theorem arrivals_ordered (ops : List (Op K)) :
    (arrivals ops).Pairwise fun one other => one.time < other.time ∧ (one.key == other.key) = false := by
  induction ops using List.reverseRecOn with
  | nil => exact List.Pairwise.nil
  | append_singleton past op ih =>
      rw [arrivals_snoc]
      cases op with
      | pop => exact ih.sublist (List.tail_sublist _)
      | add key =>
          rw [arrive]
          split
          case isTrue => exact ih
          case isFalse missing =>
            refine List.pairwise_append.mpr ⟨ih, List.pairwise_singleton _ _, fun arrival member new now => ?_⟩
            obtain rfl := List.mem_singleton.mp now
            have other : (arrival.key == key) = false := by
              rw [Bool.eq_false_iff]
              exact fun same => missing (List.any_eq_true.mpr ⟨arrival, member, same⟩)
            exact ⟨arrivals_inside past arrival member, other⟩

theorem content_pop (past : List (Op K)) : content (past ++ [.pop]) = (content past).tail := by
  rw [content, content, arrivals_snoc, arrive, ← List.map_tail]
  refine List.map_congr_left fun arrival member => ?_
  have inside := arrivals_inside past arrival (List.mem_of_mem_tail member)
  rw [held, held, adds_since_snoc past .pop arrival (Nat.le_of_lt inside)]
  simp [Op.adds]

end Queue

section Equivalence

variable [BEq K] [EquivBEq K]

theorem held_key (ops : List (Op K)) (arrival : Arrival K) : arrival.key == (held ops arrival).1 := by
  rw [held]
  cases empty : (addsSince ops arrival).getLast? with
  | none => simp [List.getLastD_eq_getLast?, empty]
  | some last =>
      rw [List.getLastD_eq_getLast?, empty]
      exact adds_since_same ops arrival last (List.mem_of_getLast? empty)

theorem held_same (ops : List (Op K)) (arrival : Arrival K) (key : K) :
    ((held ops arrival).1 == key) = (arrival.key == key) := (BEq.congr_left (held_key ops arrival)).symm

theorem content_apart (ops : List (Op K)) : (content ops).Pairwise fun one other => (one.1 == other.1) = false := by
  refine List.pairwise_map.mpr ((arrivals_ordered ops).imp fun {one other} ordered => ?_)
  rw [held_same, BEq.comm, held_same, BEq.comm]
  exact ordered.2

theorem content_any (ops : List (Op K)) (key : K) :
    (content ops).any (fun held => held.1 == key) = (arrivals ops).any (fun arrival => arrival.key == key) := by
  rw [content, List.any_map]
  congr 1
  funext arrival
  exact held_same ops arrival key

theorem held_snoc (past : List (Op K)) (key : K) (arrival : Arrival K) (inside : arrival.time ≤ past.length) :
    held (past ++ [.add key]) arrival =
      if (held past arrival).1 == key then (key, (held past arrival).2 + 1) else held past arrival := by
  rw [held_same, held, adds_since_snoc past (.add key) arrival inside, Op.adds]
  split
  case isTrue => simp [held]
  case isFalse => simp [held]

theorem content_again (past : List (Op K)) (key : K) (present : (content past).any fun held => held.1 == key) :
    content (past ++ [.add key]) = (content past).map fun held => if held.1 == key then (key, held.2 + 1) else held := by
  rw [content_any] at present
  rw [content, content, arrivals_snoc, arrive, if_pos present, List.map_map]
  refine List.map_congr_left fun arrival member => ?_
  exact held_snoc past key arrival (Nat.le_of_lt (arrivals_inside past arrival member))

theorem content_first (past : List (Op K)) (key : K) (missing : ¬ (content past).any fun held => held.1 == key) :
    content (past ++ [.add key]) = content past ++ [(key, 1)] := by
  have others : ∀ held ∈ content past, ¬ held.1 == key := fun held member same =>
    missing (List.any_eq_true.mpr ⟨held, member, same⟩)
  have new : held (past ++ [.add key]) ⟨past.length, key⟩ = (key, 1) := by simp [held, addsSince, Op.adds]
  rw [content_any] at missing
  rw [content, arrivals_snoc, arrive, if_neg missing, List.map_append, List.map_singleton, new]
  congr 1
  refine List.map_congr_left fun arrival member => ?_
  rw [held_snoc past key arrival (Nat.le_of_lt (arrivals_inside past arrival member)),
    if_neg (others (held past arrival) (List.mem_map_of_mem member))]

end Equivalence

end Libx.Arrivals

import Libx.Lib.Arrivals
import Libx.Lib.Fallible
import Mathlib.Data.List.Pairwise

set_option autoImplicit false

namespace Libx.Deque

open Arrivals Fallible

variable {T : Type}

inductive DequeFault where
  | countOverflow
  | popEmpty
deriving DecidableEq, Repr

-- eT_t.
structure Entry (T : Type) where
  t : T
  count : Nat
deriving DecidableEq, Repr

def maxInt : Nat := 2147483647

def Entry.held (entry : Entry T) : T × Nat := (entry.t, entry.count)

section Code

variable [BEq T]

-- findIdx is the length of the deque where find_if returns end().
def add (t : T) (deque : List (Entry T)) : Except DequeFault (List (Entry T)) :=
  let found := deque.findIdx fun val => val.t == t
  match deque[found]? with
  | none => .ok (deque ++ [⟨t, 1⟩])
  | some entry => if entry.count < maxInt then .ok (deque.set found ⟨t, entry.count + 1⟩) else .error .countOverflow

def popFront : List (Entry T) → Except DequeFault (List (Entry T))
  | [] => .error .popEmpty
  | _ :: rest => .ok rest

def step : Op T → List (Entry T) → Except DequeFault (List (Entry T))
  | .add t, deque => add t deque
  | .pop, deque => popFront deque

end Code

def Fits [BEq T] (past : List (Op T)) : Prop := ∀ held ∈ content past, held.2 ≤ maxInt

-- pop_front is called only where the queue holds something.
def Legal [BEq T] (past ops : List (Op T)) : Prop := ∀ mid rest, ops = mid ++ .pop :: rest → content (past ++ mid) ≠ []

def Within [BEq T] (past ops : List (Op T)) : Prop := ∀ mid rest, ops = mid ++ rest → Fits (past ++ mid)

theorem set_found {α : Type} (kind : α → Bool) (change : α → α) (elems : List α) (elem : α)
    (alone : elems.Pairwise fun one other => kind one → ¬ kind other) (found : elems[elems.findIdx kind]? = some elem) :
    elems.set (elems.findIdx kind) (change elem) = elems.map fun elem => if kind elem then change elem else elem := by
  induction elems with
  | nil => rfl
  | cons first rest ih =>
      obtain ⟨others, later⟩ := List.pairwise_cons.mp alone
      rw [List.findIdx_cons] at found ⊢
      cases same : kind first with
      | true =>
          obtain rfl : first = elem := by simpa [same] using found
          have kept : rest.map (fun elem => if kind elem then change elem else elem) = rest.map id :=
            List.map_congr_left fun other member => if_neg (others other member same)
          simp [same, kept]
      | false =>
          rw [same] at found
          have behind := ih later (by simpa using found)
          simpa [same] using behind

section Steps

variable [BEq T]

theorem add_missing (t : T) (deque : List (Entry T)) (missing : ¬ deque.any fun val => val.t == t) :
    add t deque = .ok (deque ++ [⟨t, 1⟩]) := by
  have others : ∀ val ∈ deque, (val.t == t) = false := by simpa using missing
  have ended : deque[deque.findIdx fun val => val.t == t]? = none := by
    rw [List.findIdx_eq_length_of_false others, List.getElem?_eq_none (Nat.le_refl _)]
  simp only [add, ended]

theorem pop_refines (past : List (Op T)) (deque : List (Entry T)) (view : deque.map Entry.held = content past) (fits : Fits past)
    (filled : content past ≠ []) :
    Fits (past ++ [.pop]) ∧ ∃ next, popFront deque = .ok next ∧ next.map Entry.held = content (past ++ [.pop]) := by
  rw [Fits, content_pop]
  refine ⟨fun held member => fits held (List.mem_of_mem_tail member), ?_⟩
  cases deque with
  | nil => exact absurd view.symm filled
  | cons front rest => exact ⟨rest, rfl, by rw [← view]; rfl⟩

variable [EquivBEq T]

theorem kinds_alone (t : T) (deque : List (Entry T)) (apart : deque.Pairwise fun one other => (one.t == other.t) = false) :
    deque.Pairwise fun one other => (one.t == t) = true → ¬ (other.t == t) = true := by
  refine apart.imp fun {one other} differ first second => ?_
  have same : one.t == other.t := BEq.trans first (BEq.symm second)
  exact Bool.false_ne_true (differ.symm.trans same)

theorem kind_unique (t : T) (deque : List (Entry T)) (apart : deque.Pairwise fun one other => (one.t == other.t) = false)
    (one other : Entry T) (first : one ∈ deque) (second : other ∈ deque) (oneKind : one.t == t) (otherKind : other.t == t) :
    one = other := by
  have symmetric : Std.Symm fun one other : Entry T => (one.t == other.t) = false := ⟨fun _ _ apart => BEq.comm.trans apart⟩
  by_contra differ
  have distinct := apart.forall first second differ
  exact Bool.false_ne_true (distinct.symm.trans (BEq.trans oneKind (BEq.symm otherKind)))

theorem add_found (t : T) (deque : List (Entry T)) (apart : deque.Pairwise fun one other => (one.t == other.t) = false)
    (present : deque.any fun val => val.t == t) :
    ∃ entry ∈ deque, entry.t == t ∧ (∀ val ∈ deque, val.t == t → val = entry) ∧
      add t deque = if entry.count < maxInt then
          .ok (deque.map fun val => if val.t == t then ⟨t, val.count + 1⟩ else val)
        else .error .countOverflow := by
  have inside : deque.findIdx (fun val => val.t == t) < deque.length :=
    List.findIdx_lt_length_of_exists (by simpa using present)
  have found := List.getElem?_eq_getElem inside
  have kind := List.findIdx_getElem (w := inside)
  refine ⟨_, List.getElem_mem inside, kind, fun val member same => kind_unique t deque apart _ _ member (List.getElem_mem inside) same kind, ?_⟩
  rw [← set_found (fun val => val.t == t) (fun val => ⟨t, val.count + 1⟩) deque _ (kinds_alone t deque apart) found]
  simp only [add, found]

theorem deque_apart (past : List (Op T)) (deque : List (Entry T)) (view : deque.map Entry.held = content past) :
    deque.Pairwise fun one other => (one.t == other.t) = false := by
  have apart := content_apart past
  rw [← view] at apart
  exact List.pairwise_map.mp apart

theorem add_refines (past : List (Op T)) (t : T) (deque : List (Entry T)) (view : deque.map Entry.held = content past)
    (fits : Fits past) :
    (Fits (past ++ [.add t]) ∧ ∃ next, add t deque = .ok next ∧ next.map Entry.held = content (past ++ [.add t])) ∨
      ¬ Fits (past ++ [.add t]) ∧ add t deque = .error .countOverflow := by
  have known : (deque.any fun val => val.t == t) = (content past).any fun held => held.1 == t := by
    rw [← view, List.any_map]
    rfl
  by_cases present : deque.any fun val => val.t == t
  · obtain ⟨entry, member, same, only, added⟩ := add_found t deque (deque_apart past deque view) present
    have next : content (past ++ [.add t]) = (deque.map fun val => if val.t == t then ⟨t, val.count + 1⟩ else val).map Entry.held := by
      rw [content_again past t (known ▸ present), ← view, List.map_map, List.map_map]
      refine List.map_congr_left fun val _ => ?_
      by_cases kind : val.t == t <;> simp [Entry.held, kind]
    by_cases room : entry.count < maxInt
    · refine .inl ⟨?_, _, added.trans (if_pos room), next.symm⟩
      rw [Fits, next, List.map_map, List.forall_mem_map]
      intro val inside
      by_cases kind : val.t == t
      · obtain rfl := only val inside kind
        simpa [Entry.held, kind] using Nat.succ_le_of_lt room
      · simpa [kind] using fits val.held (view ▸ List.mem_map_of_mem inside)
    · refine .inr ⟨fun wide => room (wide (t, entry.count + 1) ?_), added.trans (if_neg room)⟩
      rw [next, List.map_map]
      exact List.mem_map.mpr ⟨entry, member, by simp [Entry.held, same]⟩
  · have first := content_first past t (known ▸ present)
    refine .inl ⟨?_, _, add_missing t deque present, ?_⟩
    · rw [Fits, first]
      exact List.forall_mem_append.mpr ⟨fits, by simp [maxInt]⟩
    · rw [first, List.map_append, view]
      rfl

theorem step_refines (past : List (Op T)) (op : Op T) (deque : List (Entry T)) (view : deque.map Entry.held = content past)
    (fits : Fits past) (filled : op = .pop → content past ≠ []) :
    (Fits (past ++ [op]) ∧ ∃ next, step op deque = .ok next ∧ next.map Entry.held = content (past ++ [op])) ∨
      ¬ Fits (past ++ [op]) ∧ step op deque = .error .countOverflow := by
  cases op with
  | add t => exact add_refines past t deque view fits
  | pop => exact .inl (pop_refines past deque view fits (filled rfl))

end Steps

section Runs

theorem split_take (ops mid rest : List (Op T)) (split : ops = mid ++ rest) : mid = ops.take mid.length ∧ mid.length ≤ ops.length := by
  subst split
  simp

variable [BEq T]

theorem legal_cons (past ops : List (Op T)) (op : Op T) (legal : Legal past (op :: ops)) : Legal (past ++ [op]) ops := by
  intro mid rest split
  rw [List.append_assoc, List.singleton_append]
  exact legal (op :: mid) rest (by rw [split, List.cons_append])

theorem within_cons (past ops : List (Op T)) (op : Op T) (fits : Fits past) :
    Within past (op :: ops) ↔ Within (past ++ [op]) ops := by
  constructor
  · intro within mid rest split
    rw [List.append_assoc, List.singleton_append]
    exact within (op :: mid) rest (by rw [split, List.cons_append])
  · intro within mid rest split
    cases mid with
    | nil => rwa [List.append_nil]
    | cons first mid =>
        obtain ⟨rfl, rfl⟩ := List.cons.inj split
        rw [List.append_cons]
        exact within mid rest rfl

theorem within_start (past ops : List (Op T)) (within : Within past ops) : Fits past := by
  have start := within [] ops rfl
  rwa [List.append_nil] at start

theorem empty_fits : Fits ([] : List (Op T)) := by simp [Fits, content]

variable [EquivBEq T]

theorem run_refines (ops past : List (Op T)) (deque : List (Entry T)) (view : deque.map Entry.held = content past) (fits : Fits past)
    (legal : Legal past ops) :
    (∃ last, run step ops deque = .ok last ∧ last.map Entry.held = content (past ++ ops)) ∧ Within past ops ∨
      run step ops deque = .error .countOverflow ∧ ¬ Within past ops := by
  induction ops generalizing past deque with
  | nil =>
      refine .inl ⟨⟨deque, rfl, by rw [view, List.append_nil]⟩, fun mid rest split => ?_⟩
      obtain ⟨rfl, -⟩ := List.append_eq_nil_iff.mp split.symm
      rwa [List.append_nil]
  | cons op ops ih =>
      have filled : op = .pop → content past ≠ [] := by
        rintro rfl
        have here := legal [] ops rfl
        rwa [List.append_nil] at here
      rw [within_cons past ops op fits, List.append_cons]
      rcases step_refines past op deque view fits filled with ⟨fitsNext, next, taken, viewNext⟩ | ⟨wide, taken⟩
      · rw [run_ok_cons step op ops deque next taken]
        exact ih (past ++ [op]) next viewNext fitsNext (legal_cons past ops op legal)
      · exact .inr ⟨run_error_cons step op ops deque .countOverflow taken, mt (within_start (past ++ [op]) ops) wide⟩

theorem queue_refined (ops : List (Op T)) (legal : Legal [] ops) (within : Within [] ops) :
    ∃ deque, run step ops [] = .ok deque ∧ deque.map Entry.held = content ops ∧
      (deque.Pairwise fun one other => (one.t == other.t) = false) ∧
      (arrivals ops).Pairwise fun one other => one.time < other.time := by
  rcases run_refines ops [] [] rfl empty_fits legal with ⟨⟨deque, completed, view⟩, -⟩ | ⟨-, wide⟩
  · exact ⟨deque, completed, view, deque_apart ops deque view, (arrivals_ordered ops).imp And.left⟩
  · exact absurd within wide

end Runs

theorem queue_refined_again : ∃ deque, run step [.add 3, .add 5, .add 3, .pop, .add 3] [] = .ok deque ∧
    deque.map Entry.held = content [.add 3, .add 5, .add 3, .pop, .add 3] ∧
    (deque.Pairwise fun one other => (one.t == other.t) = false) ∧
    (arrivals [.add 3, .add 5, .add 3, .pop, .add 3]).Pairwise fun one other => one.time < other.time := by
  refine queue_refined [.add 3, .add 5, .add 3, .pop, .add 3] ?_ ?_
  · intro mid rest split
    obtain ⟨taken, -⟩ := split_take _ mid (.pop :: rest) split
    have popped : [Op.add 3, .add 5, .add 3, .pop, .add 3][mid.length]? = some .pop := by rw [split]; simp
    have filled : ∀ n < 5, [Op.add 3, .add 5, .add 3, .pop, .add 3][n]? = some .pop →
      content ([Op.add 3, .add 5, .add 3, .pop, .add 3].take n) ≠ [] := by decide
    rw [List.nil_append, taken]
    exact filled mid.length (List.getElem?_eq_some_iff.mp popped).1 popped
  · intro mid rest split
    obtain ⟨taken, short⟩ := split_take _ mid rest split
    have fits : ∀ n ≤ 5, ∀ held ∈ content ([Op.add 3, .add 5, .add 3, .pop, .add 3].take n), held.2 ≤ maxInt := by decide
    rw [List.nil_append, taken]
    exact fits mid.length short

theorem adds_content [BEq T] [EquivBEq T] (t : T) (times : Nat) :
    content (List.replicate (times + 1) (.add t)) = [(t, times + 1)] := by
  induction times with
  | zero => exact content_first [] t (by simp [content])
  | succ times ih =>
      rw [List.replicate_succ', content_again _ t (by simp [ih]), ih]
      simp

theorem adds_legal [BEq T] (t : T) (times : Nat) : Legal [] (List.replicate times (.add t)) := by
  intro mid rest split
  have popped : Op.pop ∈ List.replicate times (.add t) := by simp [split]
  cases List.eq_of_mem_replicate popped

theorem adds_overflow [BEq T] [EquivBEq T] (t : T) (times : Nat) (many : maxInt ≤ times) :
    run step (List.replicate (times + 1) (.add t)) [] = .error .countOverflow := by
  rcases run_refines (List.replicate (times + 1) (.add t)) [] [] rfl empty_fits (adds_legal t (times + 1)) with
    ⟨-, within⟩ | ⟨overflow, -⟩
  · have held := within _ [] (List.append_nil _).symm (t, times + 1) (by simp [adds_content])
    exact absurd many (Nat.not_le.mpr held)
  · exact overflow

theorem overflowing_adds : Legal [] (List.replicate 2147483648 (.add 0)) ∧
    ¬ ∃ deque : List (Entry Nat), run step (List.replicate 2147483648 (.add 0)) [] = .ok deque ∧
      deque.map Entry.held = content (List.replicate 2147483648 (.add 0)) := by
  refine ⟨adds_legal 0 2147483648, ?_⟩
  rintro ⟨deque, completed, -⟩
  rw [adds_overflow 0 2147483647 (Nat.le_refl _)] at completed
  cases completed

end Libx.Deque

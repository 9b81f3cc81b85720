import Libx.Text
import Mathlib.Data.Nat.ModEq
import Mathlib.Data.List.Infix

set_option autoImplicit false

namespace Libx.Vending

inductive State where
  | normal
  | soldOut
deriving DecidableEq

structure Machine where
  stockQuantity : UInt32
  state : State
deriving DecidableEq

-- The machine after a call, and what the call has thrown.
structure Outcome where
  machine : Machine
  thrown : Option Text
deriving DecidableEq

def new (inStockQuantity : UInt32) : Machine := ⟨inStockQuantity, if inStockQuantity > 0 then .normal else .soldOut⟩

def Machine.getCurrentStock (machine : Machine) : UInt32 := machine.stockQuantity

def updateStock (machine : Machine) (quantity : UInt32) : Machine := { machine with stockQuantity := quantity }

def setState (machine : Machine) (state : State) : Machine := { machine with state := state }

namespace Normal

-- The stock is read into an int, which the comparison and the sums turn back to unsigned.
def sell (machine : Machine) (quantity : UInt32) : Outcome :=
  let currStock : Int32 := machine.getCurrentStock.toInt32
  if currStock.toUInt32 < quantity then ⟨machine, some "Not enough stock".toList⟩
  else
    let machine := updateStock machine (currStock.toUInt32 - quantity)
    if machine.getCurrentStock = 0 then ⟨setState machine .soldOut, none⟩ else ⟨machine, none⟩

def refill (machine : Machine) (quantity : UInt32) : Outcome :=
  let currStock : Int32 := machine.getCurrentStock.toInt32
  ⟨updateStock machine (currStock.toUInt32 + quantity), none⟩

end Normal

namespace SoldOut

def sell (machine : Machine) (_quantity : UInt32) : Outcome := ⟨machine, some "Sold out!".toList⟩

def refill (machine : Machine) (quantity : UInt32) : Outcome := ⟨setState (updateStock machine quantity) .normal, none⟩

end SoldOut

def Machine.sell (machine : Machine) (quantity : UInt32) : Outcome :=
  match machine.state with
  | .normal => Normal.sell machine quantity
  | .soldOut => SoldOut.sell machine quantity

def Machine.refill (machine : Machine) (quantity : UInt32) : Outcome :=
  match machine.state with
  | .normal => Normal.refill machine quantity
  | .soldOut => SoldOut.refill machine quantity

inductive Call where
  | sell (quantity : UInt32)
  | refill (quantity : UInt32)
deriving DecidableEq

def Call.make (machine : Machine) : Call → Outcome
  | .sell quantity => machine.sell quantity
  | .refill quantity => machine.refill quantity

def after (machine : Machine) (calls : List Call) : Machine :=
  calls.foldl (fun machine call => (call.make machine).machine) machine

def Agrees (machine : Machine) : Prop := machine.state = .soldOut ↔ machine.getCurrentStock = 0

instance (machine : Machine) : Decidable (Agrees machine) :=
  inferInstanceAs (Decidable (machine.state = .soldOut ↔ machine.getCurrentStock = 0))

def Sound (machine : Machine) : Prop := machine.state = .soldOut → machine.stockQuantity = 0

def Call.book (stock : UInt32) : Call → UInt32
  | .sell quantity => if quantity ≤ stock then stock - quantity else stock
  | .refill quantity => stock + quantity

def ledger (stock : UInt32) (calls : List Call) : UInt32 := calls.foldl Call.book stock

theorem sound_of_agrees (machine : Machine) (agrees : Agrees machine) : Sound machine := agrees.mp

theorem new_agrees (stock : UInt32) : Agrees (new stock) := by
  by_cases empty : stock = 0
  · simp [Agrees, new, Machine.getCurrentStock, empty]
  · have positive : stock > 0 := UInt32.pos_iff_ne_zero.mpr empty
    simp [Agrees, new, Machine.getCurrentStock, empty, positive]

theorem refill_made (machine : Machine) (quantity : UInt32) (sound : Sound machine) :
    machine.refill quantity = ⟨⟨machine.stockQuantity + quantity, .normal⟩, none⟩ := by
  cases state : machine.state with
  | normal => simp [Machine.refill, Normal.refill, updateStock, Machine.getCurrentStock, state]
  | soldOut => simp [Machine.refill, SoldOut.refill, setState, updateStock, state, sound state]

theorem sell_made (machine : Machine) (quantity : UInt32) (state : machine.state = .normal)
    (enough : quantity ≤ machine.stockQuantity) :
    machine.sell quantity =
      ⟨⟨machine.stockQuantity - quantity, if machine.stockQuantity - quantity = 0 then .soldOut else .normal⟩, none⟩ := by
  have other : ¬ machine.stockQuantity < quantity := UInt32.not_lt.mpr enough
  by_cases last : machine.stockQuantity - quantity = 0
  · simp [Machine.sell, Normal.sell, setState, updateStock, Machine.getCurrentStock, state, other, last]
  · simp [Machine.sell, Normal.sell, updateStock, Machine.getCurrentStock, state, other, last]

theorem sell_refused (machine : Machine) (quantity : UInt32)
    (refused : machine.state = .normal → machine.stockQuantity < quantity) :
    ∃ text, machine.sell quantity = ⟨machine, some text⟩ := by
  cases state : machine.state with
  | normal =>
      refine ⟨"Not enough stock".toList, ?_⟩
      simp [Machine.sell, Normal.sell, Machine.getCurrentStock, state, refused state]
  | soldOut =>
      refine ⟨"Sold out!".toList, ?_⟩
      simp [Machine.sell, SoldOut.sell, state]

theorem sell_cases (machine : Machine) (quantity : UInt32) :
    (quantity ≤ machine.stockQuantity ∧ machine.sell quantity =
        ⟨⟨machine.stockQuantity - quantity, if machine.stockQuantity - quantity = 0 then .soldOut else .normal⟩, none⟩) ∨
      ((machine.state = .normal → machine.stockQuantity < quantity) ∧ ∃ text, machine.sell quantity = ⟨machine, some text⟩) := by
  by_cases allowed : machine.state = .normal ∧ quantity ≤ machine.stockQuantity
  · exact .inl ⟨allowed.2, sell_made machine quantity allowed.1 allowed.2⟩
  · have refused (state : machine.state = .normal) : machine.stockQuantity < quantity :=
      UInt32.not_le.mp fun enough => allowed ⟨state, enough⟩
    exact .inr ⟨refused, sell_refused machine quantity refused⟩

theorem make_sound (machine : Machine) (call : Call) (sound : Sound machine) : Sound (call.make machine).machine := by
  cases call with
  | refill quantity =>
      rw [Call.make, refill_made machine quantity sound]
      intro impossible
      exact absurd impossible (by simp)
  | sell quantity =>
      rw [Call.make]
      cases sell_cases machine quantity with
      | inl allowed =>
          rw [allowed.2]
          by_cases last : machine.stockQuantity - quantity = 0
          · exact fun _ => last
          · simp [Sound, last]
      | inr refused =>
          obtain ⟨text, same⟩ := refused.2
          rw [same]
          exact sound

theorem make_stock (machine : Machine) (call : Call) (sound : Sound machine) :
    (call.make machine).machine.stockQuantity = call.book machine.stockQuantity := by
  cases call with
  | refill quantity => rw [Call.make, refill_made machine quantity sound, Call.book]
  | sell quantity =>
      rw [Call.make, Call.book]
      cases sell_cases machine quantity with
      | inl allowed => rw [allowed.2, if_pos allowed.1]
      | inr refused =>
          obtain ⟨less, text, same⟩ := refused
          rw [same]
          cases state : machine.state with
          | normal => rw [if_neg (UInt32.not_le.mpr (less state))]
          | soldOut =>
              by_cases none_left : quantity ≤ machine.stockQuantity
              · have zero : quantity = 0 := UInt32.le_zero_iff.mp (sound state ▸ none_left)
                rw [if_pos none_left, zero, UInt32.sub_zero]
              · rw [if_neg none_left]

theorem after_append (machine : Machine) (past : List Call) (call : Call) :
    after machine (past ++ [call]) = (call.make (after machine past)).machine := by
  rw [after, List.foldl_append]
  rfl

theorem after_sound (machine : Machine) (calls : List Call) (sound : Sound machine) : Sound (after machine calls) := by
  induction calls generalizing machine with
  | nil => exact sound
  | cons call calls ih => exact ih (call.make machine).machine (make_sound machine call sound)

theorem after_stock (machine : Machine) (calls : List Call) (sound : Sound machine) :
    (after machine calls).stockQuantity = ledger machine.stockQuantity calls := by
  induction calls generalizing machine with
  | nil => rfl
  | cons call calls ih =>
      have rest := ih (call.make machine).machine (make_sound machine call sound)
      rw [make_stock machine call sound] at rest
      exact rest

theorem refill_agrees_iff (machine : Machine) (quantity : UInt32) (sound : Sound machine) :
    Agrees (machine.refill quantity).machine ↔ machine.stockQuantity + quantity ≠ 0 := by
  rw [refill_made machine quantity sound]
  simp [Agrees, Machine.getCurrentStock]

theorem sell_agrees (machine : Machine) (quantity : UInt32) (agrees : Agrees machine) :
    Agrees (machine.sell quantity).machine := by
  cases sell_cases machine quantity with
  | inl allowed =>
      rw [allowed.2]
      by_cases last : machine.stockQuantity - quantity = 0
      · simp [Agrees, Machine.getCurrentStock, last]
      · simp [Agrees, Machine.getCurrentStock, last]
  | inr refused =>
      obtain ⟨text, same⟩ := refused.2
      rw [same]
      exact agrees

theorem run_agrees_iff (initial : UInt32) (calls : List Call) :
    (∀ past, past <+: calls → Agrees (after (new initial) past)) ↔
      ∀ past quantity, past ++ [.refill quantity] <+: calls → ledger initial past + quantity ≠ 0 := by
  have start := sound_of_agrees (new initial) (new_agrees initial)
  have stock (past : List Call) : (after (new initial) past).stockQuantity = ledger initial past :=
    after_stock (new initial) past start
  constructor
  · intro agrees past quantity before
    have kept := agrees (past ++ [.refill quantity]) before
    rw [after_append, Call.make, refill_agrees_iff _ _ (after_sound (new initial) past start), stock] at kept
    exact kept
  · intro filled past before
    induction past using List.reverseRecOn with
    | nil => exact new_agrees initial
    | append_singleton past call ih =>
        have agrees := ih ((List.prefix_append past [call]).trans before)
        rw [after_append]
        cases call with
        | sell quantity => exact sell_agrees _ quantity agrees
        | refill quantity =>
            rw [Call.make, refill_agrees_iff _ _ (sound_of_agrees _ agrees), stock]
            exact filled past quantity before

theorem empty_refill_disagrees : ¬ ∀ past, past <+: [Call.refill 0] → Agrees (after (new 0) past) := by
  intro agrees
  have kept := agrees [Call.refill 0] (List.prefix_refl [Call.refill 0])
  exact absurd kept (by decide)

def Call.refilled : Call → Nat
  | .sell _ => 0
  | .refill quantity => quantity.toNat

def refilled (calls : List Call) : Nat := (calls.map Call.refilled).sum

def Call.sold (machine : Machine) : Call → Nat
  | .sell quantity => if (machine.sell quantity).thrown = none then quantity.toNat else 0
  | .refill _ => 0

def sold (machine : Machine) : List Call → Nat
  | [] => 0
  | call :: calls => call.sold machine + sold (call.make machine).machine calls

theorem make_conserves (machine : Machine) (call : Call) (sound : Sound machine) :
    (call.make machine).machine.stockQuantity.toNat + call.sold machine ≡ machine.stockQuantity.toNat + call.refilled [MOD 2 ^ 32] := by
  cases call with
  | refill quantity =>
      rw [Call.make, refill_made machine quantity sound, Call.sold, Call.refilled, UInt32.toNat_add]
      exact Nat.mod_modEq (machine.stockQuantity.toNat + quantity.toNat) (2 ^ 32)
  | sell quantity =>
      rw [Call.make, Call.sold, Call.refilled]
      cases sell_cases machine quantity with
      | inl allowed =>
          rw [allowed.2, if_pos rfl, UInt32.toNat_sub_of_le _ _ allowed.1]
          have less : quantity.toNat ≤ machine.stockQuantity.toNat := allowed.1
          rw [Nat.sub_add_cancel less]
          exact Nat.ModEq.refl machine.stockQuantity.toNat
      | inr refused =>
          obtain ⟨text, same⟩ := refused.2
          rw [same, if_neg (by simp)]

theorem after_conserves (machine : Machine) (calls : List Call) (sound : Sound machine) :
    (after machine calls).stockQuantity.toNat + sold machine calls ≡ machine.stockQuantity.toNat + refilled calls [MOD 2 ^ 32] := by
  induction calls generalizing machine with
  | nil => exact Nat.ModEq.refl machine.stockQuantity.toNat
  | cons call calls ih =>
      have first := make_conserves machine call sound
      have rest := ih (call.make machine).machine (make_sound machine call sound)
      rw [sold, refilled, List.map_cons, List.sum_cons]
      calc
        (after machine (call :: calls)).stockQuantity.toNat + (call.sold machine + sold (call.make machine).machine calls)
          = (after (call.make machine).machine calls).stockQuantity.toNat + sold (call.make machine).machine calls +
              call.sold machine := by
            rw [after, after, List.foldl_cons]
            omega
        _ ≡ (call.make machine).machine.stockQuantity.toNat + refilled calls + call.sold machine [MOD 2 ^ 32] :=
            rest.add_right (call.sold machine)
        _ = (call.make machine).machine.stockQuantity.toNat + call.sold machine + refilled calls := by omega
        _ ≡ machine.stockQuantity.toNat + call.refilled + refilled calls [MOD 2 ^ 32] := first.add_right (refilled calls)
        _ = machine.stockQuantity.toNat + (call.refilled + refilled calls) := by omega

theorem sell_atomic (machine : Machine) (quantity : UInt32) (thrown : (machine.sell quantity).thrown ≠ none) :
    (machine.sell quantity).machine = machine := by
  cases sell_cases machine quantity with
  | inl allowed =>
      rw [allowed.2] at thrown
      exact absurd rfl thrown
  | inr refused =>
      obtain ⟨text, same⟩ := refused.2
      rw [same]

theorem run_conserves (initial : UInt32) (calls : List Call) :
    (after (new initial) calls).getCurrentStock.toNat + sold (new initial) calls ≡ initial.toNat + refilled calls [MOD 2 ^ 32] ∧
      ∀ past quantity, past ++ [.sell quantity] <+: calls → ((after (new initial) past).sell quantity).thrown ≠ none →
        after (new initial) (past ++ [.sell quantity]) = after (new initial) past := by
  refine ⟨after_conserves (new initial) calls (sound_of_agrees (new initial) (new_agrees initial)), ?_⟩
  intro past quantity _ thrown
  rw [after_append]
  exact sell_atomic (after (new initial) past) quantity thrown

end Libx.Vending

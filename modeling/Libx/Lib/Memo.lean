import Mathlib.Data.List.Induction
import Mathlib.Data.List.Nodup
import Mathlib.Logic.Function.Basic

set_option autoImplicit false

-- A store that asks for a key when it first meets it and then keeps the answer.
namespace Libx.Memo

variable {κ σ ν : Type} [DecidableEq κ]

-- `asked` are the keys the store had to ask for, in that order.
structure Store (κ ν : Type) where
  known : κ → Option ν
  asked : List κ

def empty : Store κ ν := ⟨fun _ => none, []⟩

section Answers

-- An answer may depend on what was asked before, on the stamp of the look and on the key.
variable (answer : List κ → σ → κ → ν)

def Store.look (store : Store κ ν) (look : σ × κ) : Store κ ν :=
  match store.known look.2 with
  | some _ => store
  | none => ⟨Function.update store.known look.2 (some (answer store.asked look.1 look.2)), store.asked ++ [look.2]⟩

def Store.run (looks : List (σ × κ)) (store : Store κ ν) : Store κ ν := looks.foldl (Store.look answer) store

def told (past : List κ) : List (σ × κ) → κ → Option ν
  | [], _ => none
  | look :: rest, key =>
      if look.2 = key then some (answer past.eraseDups look.1 key) else told (past ++ [look.2]) rest key

structure Tracks (looks : List (σ × κ)) (store : Store κ ν) : Prop where
  asked : store.asked = (looks.map Prod.snd).eraseDups
  known : ∀ key, store.known key = told answer [] looks key

theorem erase_dups_snoc (keys : List κ) (key : κ) :
    (keys ++ [key]).eraseDups = if key ∈ keys then keys.eraseDups else keys.eraseDups ++ [key] := by
  rw [List.eraseDups_append]
  by_cases old : key ∈ keys
  · simp [List.removeAll, old]
  · simp [List.removeAll, old, List.eraseDups_cons]

theorem told_snoc (past : List κ) (looks : List (σ × κ)) (last : σ × κ) (key : κ) :
    told answer past (looks ++ [last]) key =
      if key ∈ looks.map Prod.snd then told answer past looks key
      else if last.2 = key then some (answer (past ++ looks.map Prod.snd).eraseDups last.1 key) else none := by
  induction looks generalizing past with
  | nil => simp [told]
  | cons look rest ih =>
      rw [List.cons_append, told, told]
      by_cases own : look.2 = key
      · rw [if_pos own, if_pos own, if_pos (by simp [own])]
      · have member : key ∈ (look :: rest).map Prod.snd ↔ key ∈ rest.map Prod.snd := by
          rw [List.map_cons, List.mem_cons, or_iff_right (Ne.symm own)]
        rw [if_neg own, if_neg own, ih, List.append_assoc, List.singleton_append, ← List.map_cons]
        simp only [member]

theorem told_none_iff (past : List κ) (looks : List (σ × κ)) (key : κ) :
    told answer past looks key = none ↔ key ∉ looks.map Prod.snd := by
  induction looks generalizing past with
  | nil => simp [told]
  | cons look rest ih =>
      rw [told]
      by_cases own : look.2 = key
      · simp [own]
      · rw [if_neg own, ih]
        simp [Ne.symm own]

theorem look_tracks (looks : List (σ × κ)) (last : σ × κ) (store : Store κ ν) (tracks : Tracks answer looks store) :
    Tracks answer (looks ++ [last]) (store.look answer last) := by
  have keys : (looks ++ [last]).map Prod.snd = looks.map Prod.snd ++ [last.2] := by simp
  have own := tracks.known last.2
  rw [Store.look]
  cases found : store.known last.2 with
  | some value =>
      have old : last.2 ∈ looks.map Prod.snd := by
        by_contra fresh
        rw [own, (told_none_iff answer [] looks last.2).mpr fresh] at found
        exact nomatch found
      refine ⟨by rw [keys, erase_dups_snoc, if_pos old, tracks.asked], fun key => ?_⟩
      rw [tracks.known, told_snoc]
      by_cases member : key ∈ looks.map Prod.snd
      · rw [if_pos member]
      · have other : last.2 ≠ key := fun same => member (same ▸ old)
        rw [if_neg member, if_neg other]
        exact (told_none_iff answer [] looks key).mpr member
  | none =>
      have fresh : last.2 ∉ looks.map Prod.snd := (told_none_iff answer [] looks last.2).mp (own.symm.trans found)
      refine ⟨by rw [keys, erase_dups_snoc, if_neg fresh, tracks.asked], fun key => ?_⟩
      dsimp only
      rw [told_snoc, List.nil_append, ← tracks.asked]
      by_cases same : last.2 = key
      · subst same
        rw [Function.update_self, if_neg fresh, if_pos rfl]
      · rw [Function.update_of_ne (Ne.symm same), tracks.known, if_neg same]
        by_cases member : key ∈ looks.map Prod.snd
        · rw [if_pos member]
        · rw [if_neg member]
          exact (told_none_iff answer [] looks key).mpr member

theorem run_tracks (before looks : List (σ × κ)) (store : Store κ ν) (tracks : Tracks answer before store) :
    Tracks answer (before ++ looks) (store.run answer looks) := by
  induction looks generalizing before store with
  | nil => rwa [List.append_nil]
  | cons look rest ih =>
      have later := ih (before ++ [look]) (store.look answer look) (look_tracks answer before look store tracks)
      rwa [List.append_assoc, List.singleton_append] at later

theorem erase_dups_nodup (keys : List κ) : keys.eraseDups.Nodup := by
  induction keys using List.reverseRecOn with
  | nil => exact List.nodup_nil
  | append_singleton keys key ih =>
      rw [erase_dups_snoc]
      by_cases old : key ∈ keys
      · rwa [if_pos old]
      · rw [if_neg old]
        refine List.nodup_append.mpr ⟨ih, List.nodup_singleton key, fun one member other last same => ?_⟩
        rw [List.mem_singleton.mp last] at same
        exact old (List.mem_eraseDups.mp (same ▸ member))

theorem empty_tracks : Tracks answer [] (empty : Store κ ν) := ⟨rfl, fun _ => rfl⟩

theorem told_append (past : List κ) (looks more : List (σ × κ)) (key : κ) (seen : key ∈ looks.map Prod.snd) :
    told answer past (looks ++ more) key = told answer past looks key := by
  induction looks generalizing past with
  | nil => exact absurd seen List.not_mem_nil
  | cons look rest ih =>
      rw [List.cons_append, told, told]
      by_cases own : look.2 = key
      · rw [if_pos own, if_pos own]
      · rw [if_neg own, if_neg own]
        refine ih (past ++ [look.2]) ?_
        rw [List.map_cons, List.mem_cons] at seen
        exact seen.resolve_left (Ne.symm own)

end Answers

end Libx.Memo

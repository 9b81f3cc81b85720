import Libx.Http.NameValues
import Libx.Lib.Fallible

set_option autoImplicit false

namespace Libx.Http

open Fallible

inductive VectorFault where
  | outOfRange
  | noReturn
deriving DecidableEq, Repr

-- What HCsvVector uses of its T: the T named "Default", the T that AddingT
-- names "New", mName, and IteratorDD over the values of a form.
structure Element (T : Type) where
  default : T
  new : T
  name : T → Text
  iterate : List HttpNameValue → T → T

structure HCsvVector (T : Type) where
  name : Text
  selection : Int
  elems : List T
deriving DecidableEq, Repr

namespace HCsvVector

variable {T : Type} (element : Element T) (fatoi : Text → Int)

def new (name : Text) (addDefault : Bool) : HCsvVector T := ⟨name, 0, if addDefault then [element.default] else []⟩

def size (v : HCsvVector T) : Nat := v.elems.length

-- operator[], for an index that may be negative.
def elemAt (v : HCsvVector T) (idx : Int) : Except VectorFault T :=
  match v.elems[idx.toNat]? with
  | some elem => if 0 ≤ idx then .ok elem else .error .outOfRange
  | none => .error .outOfRange

def getSelected (v : HCsvVector T) : Except VectorFault T := v.elemAt v.selection

-- The element whose fields GetHtmlSelected writes.
def getHtmlSelected (v : HCsvVector T) : Except VectorFault (Option T) :=
  if v.elems = [] then .ok none else (v.elemAt v.selection).map some

def submittingT (rHttpNameValues : List HttpNameValue) (v : HCsvVector T) : Except VectorFault (HCsvVector T) :=
  (v.elemAt v.selection).map fun rT =>
    { v with elems := v.elems.set v.selection.toNat (element.iterate rHttpNameValues rT) }

-- The loop of FileRead over what IteratorDD reads of each line.
def fileLines : List T → HCsvVector T → Except VectorFault (HCsvVector T)
  | [], v => .ok v
  | lT :: rest, v =>
      if ['D', 'e', 'f', 'a', 'u', 'l', 't'] <+: cString (element.name lT) then
        match v.elems with
        | [] => .error .outOfRange
        | _ :: others => fileLines rest { v with elems := lT :: others }
      else fileLines rest { v with elems := v.elems ++ [lT] }

-- There are no lines where pFILE is NULL.
def fileRead (lines : Option (List T)) (v : HCsvVector T) : Except VectorFault (HCsvVector T) :=
  lines.elim (.ok v) fun lines => fileLines element lines v

-- erase( begin() + idx ).
def erase (v : HCsvVector T) (idx : Int) : Except VectorFault (HCsvVector T) :=
  if 0 ≤ idx ∧ idx < v.size then .ok { v with elems := v.elems.eraseIdx idx.toNat } else .error .outOfRange

def selectingT (selection : Int) (v : HCsvVector T) : HCsvVector T := { v with selection := selection }

def removingT (selection : Int) (v : HCsvVector T) : Except VectorFault (HCsvVector T) :=
  (v.erase selection).map fun v => { v with selection := 0 }

def Named (v : HCsvVector T) (rHttpNameValue : HttpNameValue) : Prop := cString v.name = cString rHttpNameValue.name

instance (v : HCsvVector T) (rHttpNameValue : HttpNameValue) : Decidable (v.Named rHttpNameValue) :=
  inferInstanceAs (Decidable (cString v.name = cString rHttpNameValue.name))

def selectingNamed (rHttpNameValue : HttpNameValue) (v : HCsvVector T) : HCsvVector T :=
  if v.Named rHttpNameValue then { v with selection := fatoi rHttpNameValue.value } else v

-- For another name the end of this function is reached without a return.
def removingNamed (rHttpNameValue : HttpNameValue) (v : HCsvVector T) : Except VectorFault (HCsvVector T) :=
  if v.Named rHttpNameValue then v.erase (fatoi rHttpNameValue.value) else .error .noReturn

def addingT (v : HCsvVector T) : HCsvVector T :=
  { v with elems := v.elems ++ [element.new], selection := (v.elems ++ [element.new]).length - 1 }

end HCsvVector

inductive VectorOp (T : Type) where
  | selecting (selection : Int)
  | selectingNamed (rHttpNameValue : HttpNameValue)
  | removing (selection : Int)
  | removingNamed (rHttpNameValue : HttpNameValue)
  | adding
  | fileRead (lines : Option (List T))

namespace HCsvVector

variable {T : Type} (element : Element T) (fatoi : Text → Int)

def step : VectorOp T → HCsvVector T → Except VectorFault (HCsvVector T)
  | .selecting selection, v => .ok (v.selectingT selection)
  | .selectingNamed rHttpNameValue, v => .ok (v.selectingNamed fatoi rHttpNameValue)
  | .removing selection, v => v.removingT selection
  | .removingNamed rHttpNameValue, v => v.removingNamed fatoi rHttpNameValue
  | .adding, v => .ok (v.addingT element)
  | .fileRead lines, v => v.fileRead element lines

def InRange (v : HCsvVector T) (idx : Int) : Prop := 0 ≤ idx ∧ idx < v.size

instance (v : HCsvVector T) (idx : Int) : Decidable (v.InRange idx) := inferInstanceAs (Decidable (0 ≤ idx ∧ idx < v.size))

def Legal (v : HCsvVector T) : VectorOp T → Prop
  | .selecting selection => v.InRange selection
  | .selectingNamed rHttpNameValue => v.Named rHttpNameValue → v.InRange (fatoi rHttpNameValue.value)
  | .removing selection => v.InRange selection
  | .removingNamed rHttpNameValue => v.Named rHttpNameValue → v.InRange (fatoi rHttpNameValue.value)
  | .adding => True
  | .fileRead _ => True

structure Selectable (v : HCsvVector T) : Prop where
  below : v.selection < v.size
  selected : ∃ elem, v.getSelected = .ok elem
  shown : ∃ elem, v.getHtmlSelected = .ok elem
  submitted : ∀ rHttpNameValues, ∃ next, v.submittingT element rHttpNameValues = .ok next

def Valid (v : HCsvVector T) : Prop := v.size = 0 ∨ v.Selectable element

def Harmless (v : HCsvVector T) : VectorOp T → Prop
  | .removingNamed rHttpNameValue => v.Named rHttpNameValue ∧ (v.selection + 1 < v.size ∨ v.size = 1)
  | .fileRead (some (lT :: _)) => v.size = 0 → ¬ ['D', 'e', 'f', 'a', 'u', 'l', 't'] <+: cString (element.name lT)
  | _ => True

structure Kept (v : HCsvVector T) : Prop where
  natural : 0 ≤ v.selection
  within : v.selection ≤ (v.size - 1 : Nat)

theorem elem_at_ok (v : HCsvVector T) (idx : Int) : (∃ elem, v.elemAt idx = .ok elem) ↔ v.InRange idx := by
  rw [elemAt, InRange, size]
  cases found : v.elems[idx.toNat]? with
  | none =>
      have behind := List.getElem?_eq_none_iff.mp found
      simp
      omega
  | some elem =>
      have inside := (List.getElem?_eq_some_iff.mp found).1
      by_cases natural : 0 ≤ idx
      · simp [natural]
        omega
      · simp [natural]

theorem selectable_iff (v : HCsvVector T) (some_ : v.size ≠ 0) : v.Selectable element ↔ v.InRange v.selection := by
  have filled : v.elems ≠ [] := fun empty => some_ (by rw [size, empty, List.length_nil])
  constructor
  · intro selectable
    exact (elem_at_ok v v.selection).mp selectable.selected
  · intro inside
    obtain ⟨elem, found⟩ := (elem_at_ok v v.selection).mpr inside
    exact ⟨inside.2, ⟨elem, found⟩, ⟨some elem, by rw [getHtmlSelected, if_neg filled, found]; rfl⟩,
      fun rHttpNameValues => ⟨_, by rw [submittingT, found]; rfl⟩⟩

theorem valid_iff (v : HCsvVector T) : v.Valid element ↔ v.size = 0 ∨ v.InRange v.selection := by
  by_cases empty : v.size = 0
  · exact iff_of_true (.inl empty) (.inl empty)
  · rw [Valid, selectable_iff element v empty]

theorem valid_of_kept (v : HCsvVector T) (kept : v.Kept) : v.Valid element := by
  obtain ⟨natural, within⟩ := kept
  refine (valid_iff element v).mpr ((Nat.eq_zero_or_pos v.size).imp id fun some_ => ⟨natural, ?_⟩)
  omega

theorem new_kept (name : Text) (addDefault : Bool) : (new element name addDefault).Kept :=
  ⟨Int.le_refl 0, Int.natCast_nonneg _⟩

theorem erase_ok (v : HCsvVector T) (idx : Int) (inside : v.InRange idx) :
    ∃ next, v.erase idx = .ok next ∧ next.size = v.size - 1 ∧ next.selection = v.selection := by
  refine ⟨_, if_pos inside, ?_, rfl⟩
  obtain ⟨natural, below⟩ := inside
  rw [size] at below
  exact List.length_eraseIdx_of_lt (by omega)

theorem file_lines_grow (lines : List T) (v : HCsvVector T) (some_ : v.size ≠ 0) :
    ∃ next, v.fileLines element lines = .ok next ∧ v.size ≤ next.size ∧ next.selection = v.selection := by
  induction lines generalizing v with
  | nil => exact ⟨v, rfl, Nat.le_refl _, rfl⟩
  | cons lT rest ih =>
      rw [fileLines]
      split
      next =>
        cases filled : v.elems with
        | nil => exact absurd (by rw [size, filled, List.length_nil]) some_
        | cons first others =>
            obtain ⟨next, read, larger, same⟩ := ih { v with elems := lT :: others } (by simp [size])
            exact ⟨next, read, by simpa [size, filled] using larger, same⟩
      next =>
        obtain ⟨next, read, larger, same⟩ := ih { v with elems := v.elems ++ [lT] } (by simp [size])
        exact ⟨next, read, by rw [size, List.length_append] at larger; exact Nat.le_of_add_right_le larger, same⟩

theorem selected_kept (v : HCsvVector T) (idx : Int) (inside : v.InRange idx) : (v.selectingT idx).Kept := by
  obtain ⟨natural, below⟩ := inside
  refine ⟨natural, ?_⟩
  change idx ≤ (v.size - 1 : Nat)
  omega

theorem file_read_kept (lines : Option (List T)) (v : HCsvVector T) (kept : v.Kept) (harmless : v.Harmless element (.fileRead lines)) :
    ∃ next, v.fileRead element lines = .ok next ∧ next.Kept := by
  obtain ⟨natural, within⟩ := kept
  have grown (lines : List T) (some_ : v.size ≠ 0) : ∃ next, v.fileLines element lines = .ok next ∧ next.Kept := by
    obtain ⟨next, read, larger, same⟩ := file_lines_grow element lines v some_
    exact ⟨next, read, same ▸ natural, by rw [same]; omega⟩
  cases lines with
  | none => exact ⟨v, rfl, natural, within⟩
  | some lines =>
      cases lines with
      | nil => exact ⟨v, rfl, natural, within⟩
      | cons lT rest =>
          by_cases empty : v.size = 0
          · obtain ⟨next, read, larger, same⟩ := file_lines_grow element rest { v with elems := v.elems ++ [lT] } (by simp [size])
            refine ⟨next, ?_, same ▸ natural, ?_⟩
            · rw [fileRead, Option.elim_some, fileLines, if_neg (harmless empty), read]
            · change next.selection = v.selection at same
              omega
          · exact grown (lT :: rest) empty

theorem step_harmful (op : VectorOp T) (v next : HCsvVector T) (legal : v.Legal fatoi op)
    (harmful : ¬ v.Harmless element op) (taken : step element fatoi op v = .ok next) : ¬ next.Valid element := by
  cases op with
  | selecting selection => exact absurd trivial harmful
  | selectingNamed rHttpNameValue => exact absurd trivial harmful
  | removing selection => exact absurd trivial harmful
  | adding => exact absurd trivial harmful
  | removingNamed rHttpNameValue =>
      rw [step, removingNamed] at taken
      by_cases named : v.Named rHttpNameValue
      · obtain ⟨other, erased, smaller, same⟩ := erase_ok v _ (legal named)
        rw [if_pos named, erased] at taken
        obtain rfl : other = next := Except.ok.inj taken
        obtain ⟨natural, below⟩ := legal named
        have last : ¬ (v.selection + 1 < v.size ∨ v.size = 1) := fun within => harmful ⟨named, within⟩
        rw [valid_iff, InRange, same]
        omega
      · rw [if_neg named] at taken
        contradiction
  | fileRead lines =>
      cases lines with
      | none => exact absurd trivial harmful
      | some lines =>
          cases lines with
          | nil => exact absurd trivial harmful
          | cons lT rest =>
              obtain ⟨empty, default⟩ := Classical.not_imp.mp harmful
              have nothing : v.elems = [] := List.length_eq_zero_iff.mp empty
              rw [step, fileRead, Option.elim_some, fileLines, if_pos (not_not.mp default)] at taken
              simp [nothing] at taken

theorem step_kept (op : VectorOp T) (v : HCsvVector T) (kept : v.Kept) (legal : v.Legal fatoi op)
    (harmless : v.Harmless element op) : ∃ next, step element fatoi op v = .ok next ∧ next.Kept := by
  cases op with
  | selecting selection => exact ⟨_, rfl, selected_kept v selection legal⟩
  | selectingNamed rHttpNameValue =>
      refine ⟨_, rfl, ?_⟩
      by_cases named : v.Named rHttpNameValue
      · rw [selectingNamed, if_pos named]
        exact selected_kept v _ (legal named)
      · rw [selectingNamed, if_neg named]
        exact kept
  | removing selection =>
      obtain ⟨next, erased, -, -⟩ := erase_ok v selection legal
      exact ⟨{ next with selection := 0 }, by rw [step, removingT, erased]; rfl, Int.le_refl 0, Int.natCast_nonneg _⟩
  | removingNamed rHttpNameValue =>
      obtain ⟨named, within⟩ := harmless
      obtain ⟨next, erased, smaller, same⟩ := erase_ok v _ (legal named)
      obtain ⟨natural, below⟩ := kept
      refine ⟨next, by rw [step, removingNamed, if_pos named, erased], same ▸ natural, ?_⟩
      rw [same, smaller]
      omega
  | adding =>
      refine ⟨_, rfl, ?_, ?_⟩
      · simp [addingT]
      · simp [addingT, size]
  | fileRead lines => exact file_read_kept element lines v kept harmless

theorem step_exact (v : HCsvVector T) (op : VectorOp T) (kept : v.Kept) (legal : v.Legal fatoi op) :
    (∃ next, step element fatoi op v = .ok next ∧ next.Valid element) ↔ v.Harmless element op := by
  constructor
  · rintro ⟨next, taken, valid⟩
    by_contra harmful
    exact step_harmful element fatoi op v next legal harmful taken valid
  · intro harmless
    obtain ⟨next, taken, good⟩ := step_kept element fatoi op v kept legal harmless
    exact ⟨next, taken, valid_of_kept element next good⟩

end HCsvVector

open HCsvVector

theorem selection_stays_valid_iff {T : Type} (element : Element T) (fatoi : Text → Int) (name : Text) (addDefault : Bool)
    (ops : List (VectorOp T)) (legal : Each (step element fatoi) (Legal fatoi) ops (new element name addDefault)) :
    Always (step element fatoi) (Valid element) ops (new element name addDefault) ↔
      Each (step element fatoi) (Harmless element) ops (new element name addDefault) := by
  refine always_iff_each _ Kept _ _ _ (valid_of_kept element) (step_exact element fatoi) ?_ ops _ (new_kept element name addDefault) legal
  intro v op next kept legal harmless taken
  obtain ⟨other, same, good⟩ := step_kept element fatoi op v kept legal harmless
  obtain rfl : other = next := Except.ok.inj (same.symm.trans taken)
  exact good

def nameElement : Element Text := ⟨"Default".toList, "New".toList, id, fun _ name => name⟩

def decimalValue (value : Text) : Int := value.foldl (fun n c => n * 10 + (c.toNat - '0'.toNat : Nat)) 0

theorem selection_stays_valid_adding :
    Always (step nameElement decimalValue) (Valid nameElement) [.adding, .selecting 1] (new nameElement ['v'] true) ↔
      Each (step nameElement decimalValue) (Harmless nameElement) [.adding, .selecting 1] (new nameElement ['v'] true) := by
  refine selection_stays_valid_iff nameElement decimalValue ['v'] true [.adding, .selecting 1] ⟨trivial, fun next taken => ?_⟩
  obtain rfl := Except.ok.inj taken
  exact ⟨⟨by decide, by decide⟩, fun _ _ => trivial⟩

theorem selection_left_behind :
    Each (step nameElement decimalValue) (Legal decimalValue) [.adding, .removingNamed ⟨['v'], ['1']⟩] (new nameElement ['v'] true) ∧
      ¬ Always (step nameElement decimalValue) (Valid nameElement) [.adding, .removingNamed ⟨['v'], ['1']⟩]
        (new nameElement ['v'] true) := by
  constructor
  · refine ⟨trivial, fun next taken => ?_⟩
    obtain rfl := Except.ok.inj taken
    exact ⟨fun _ => ⟨by decide, by decide⟩, fun _ _ => trivial⟩
  · rintro ⟨-, added, first, -, left, second, valid⟩
    obtain rfl := Except.ok.inj first
    obtain rfl := Except.ok.inj second
    exact absurd ((valid_iff nameElement _).mp valid) (by decide +kernel)

end Libx.Http

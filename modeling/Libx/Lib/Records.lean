import Mathlib.Data.List.Basic

set_option autoImplicit false

-- Lines that end with a mark, and lines made of labelled values whose labels
-- begin with another mark.
namespace Libx.Records

variable {α : Type} [DecidableEq α]

def cutLines (mark : α) : List α → List α → List (List α)
  | _, [] => []
  | line, c :: rest => if c = mark then line :: cutLines mark [] rest else cutLines mark (line ++ [c]) rest

def linesOf (mark : α) (text : List α) : List (List α) := cutLines mark [] text

theorem cut_lines_first (mark : α) (clean rest line : List α) (outside : mark ∉ clean) :
    cutLines mark line (clean ++ mark :: rest) = (line ++ clean) :: linesOf mark rest := by
  induction clean generalizing line with
  | nil => simp [cutLines, linesOf]
  | cons c clean ih =>
      obtain ⟨other, behind⟩ := not_or.mp (mt List.mem_cons.mpr outside)
      rw [List.cons_append, cutLines, if_neg (Ne.symm other), ih (line ++ [c]) behind, List.append_assoc, List.singleton_append]

theorem lines_of_cons (mark : α) (clean rest : List α) (outside : mark ∉ clean) :
    linesOf mark (clean ++ mark :: rest) = clean :: linesOf mark rest := cut_lines_first mark clean rest [] outside

theorem cut_lines_append (mark : α) (front back line : List α) :
    cutLines mark line (front ++ mark :: back) = cutLines mark line (front ++ [mark]) ++ linesOf mark back := by
  induction front generalizing line with
  | nil => simp [cutLines, linesOf]
  | cons c front ih =>
      simp only [List.cons_append, cutLines]
      by_cases ends : c = mark
      · rw [if_pos ends, if_pos ends, ih [], List.cons_append]
      · rw [if_neg ends, if_neg ends, ih (line ++ [c])]

theorem lines_of_append (mark : α) (front back : List α) (complete : front = [] ∨ front.getLast? = some mark) :
    linesOf mark (front ++ back) = linesOf mark front ++ linesOf mark back := by
  rcases complete with rfl | ends
  · rfl
  · obtain ⟨before, rfl⟩ := List.getLast?_eq_some_iff.mp ends
    rw [linesOf, List.append_assoc, List.singleton_append, cut_lines_append]
    rfl

theorem lines_of_flat {β : Type} (mark : α) (render : β → List α) (items : List β) (clean : ∀ item ∈ items, mark ∉ render item) :
    linesOf mark (items.flatMap fun item => render item ++ [mark]) = items.map render := by
  induction items with
  | nil => rfl
  | cons item items ih =>
      have later := ih fun other member => clean other (List.mem_cons_of_mem item member)
      rw [List.flatMap_cons, List.append_assoc, List.singleton_append, lines_of_cons mark _ _ (clean item List.mem_cons_self),
        later, List.map_cons]

def past : List α → List α → Option (List α)
  | [], text => some text
  | _ :: _, [] => none
  | n :: label, c :: text => if n = c then past label text else none

def readFields (mark : α) : List (List α) → List α → Option (List (List α))
  | [], text => if text = [] then some [] else none
  | [label], text => (past label text).map fun value => [value]
  | label :: next :: labels, text => do
      let body ← past label text
      let values ← readFields mark (next :: labels) (body.dropWhile (· ≠ mark))
      return body.takeWhile (· ≠ mark) :: values

def weave : List (List α) → List (List α) → List α
  | label :: labels, value :: values => label ++ value ++ weave labels values
  | _, _ => []

@[simp] theorem past_own (label text : List α) : past label (label ++ text) = some text := by
  induction label with
  | nil => rfl
  | cons n label ih => simpa [past] using ih

def Marked (mark : α) (label : List α) : Prop := label.head? = some mark

theorem read_fields_weave (mark : α) (label : List α) (labels : List (List α)) (value : List α) (values : List (List α))
    (count : labels.length = values.length) (marked : ∀ other ∈ labels, Marked mark other)
    (clean : ∀ other ∈ (value :: values).dropLast, mark ∉ other) :
    readFields mark (label :: labels) (weave (label :: labels) (value :: values)) = some (value :: values) := by
  induction labels generalizing label value values with
  | nil =>
      obtain rfl := List.length_eq_zero_iff.mp count.symm
      simp [weave, readFields]
  | cons next labels ih =>
      obtain ⟨following, values, rfl⟩ := List.exists_cons_of_length_eq_add_one count.symm
      have later := ih next following values (Nat.succ.inj count) (fun other member => marked other (List.mem_cons_of_mem next member))
        (fun other member => clean other (List.mem_cons_of_mem value member))
      obtain ⟨name, shape⟩ : ∃ name, next = mark :: name := List.head?_eq_some_iff.mp (marked next List.mem_cons_self)
      have outside : mark ∉ value := clean value List.mem_cons_self
      have passed : ∀ c ∈ value, decide (c ≠ mark) = true := fun c member => decide_eq_true fun same => outside (same ▸ member)
      have begins : weave (next :: labels) (following :: values) = mark :: (name ++ following ++ weave labels values) := by
        rw [weave, shape]
        rfl
      rw [weave, readFields, List.append_assoc, past_own]
      simp only [Option.bind_eq_bind, Option.bind_some]
      rw [begins] at later ⊢
      rw [List.takeWhile_append_of_pos passed, List.dropWhile_append_of_pos passed]
      simp only [List.takeWhile_cons, List.dropWhile_cons, ne_eq, not_true, decide_false, Bool.false_eq_true, if_false, List.append_nil,
        later]
      rfl

omit [DecidableEq α] in
theorem span_apart (like : α → Bool) (front back front' back' : List α) (inside : ∀ c ∈ front, like c = true)
    (inside' : ∀ c ∈ front', like c = true) (outside : ∀ c, back.head? = some c → like c = false)
    (outside' : ∀ c, back'.head? = some c → like c = false) (same : front ++ back = front' ++ back') :
    front = front' ∧ back = back' := by
  have stops : ∀ text : List α, (∀ c, text.head? = some c → like c = false) → text.takeWhile like = [] := by
    intro text ends
    cases text with
    | nil => rfl
    | cons c text => rw [List.takeWhile_cons, if_neg (by rw [ends c rfl]; exact Bool.false_ne_true)]
  have fronts := congrArg (List.takeWhile like) same
  rw [List.takeWhile_append_of_pos inside, List.takeWhile_append_of_pos inside', stops back outside, stops back' outside',
    List.append_nil, List.append_nil] at fronts
  obtain rfl := fronts
  exact ⟨rfl, List.append_cancel_left same⟩

theorem repeat_apart (mark : α) (count count' : Nat) (back back' : List α) (outside : back.head? ≠ some mark)
    (outside' : back'.head? ≠ some mark) (same : List.replicate count mark ++ back = List.replicate count' mark ++ back') :
    count = count' ∧ back = back' := by
  have own : ∀ count, ∀ c ∈ List.replicate count mark, decide (c = mark) = true :=
    fun count c member => decide_eq_true (List.eq_of_mem_replicate member)
  have other : ∀ text : List α, text.head? ≠ some mark → ∀ c, text.head? = some c → decide (c = mark) = false :=
    fun text ends c first => decide_eq_false fun equal => ends (equal ▸ first)
  obtain ⟨fronts, backs⟩ := span_apart (fun c => decide (c = mark)) _ _ _ _ (own count) (own count') (other back outside)
    (other back' outside') same
  have lengths := congrArg List.length fronts
  rw [List.length_replicate, List.length_replicate] at lengths
  exact ⟨lengths, backs⟩

end Libx.Records

import Libx.Lib.Records

set_option autoImplicit false

-- Trees written down one node a line, each line with the depth of its node.
namespace Libx.Outline

inductive Forest (α : Type) where
  | nil
  | node (label : α) (children rest : Forest α)
deriving DecidableEq, Repr

variable {α : Type}

abbrev Line (α : Type) := Nat × α

namespace Forest

def outline (depth : Nat) : Forest α → List (Line α)
  | nil => []
  | node label children rest => (depth, label) :: (children.outline (depth + 1) ++ rest.outline depth)

def All (holds : α → Prop) : Forest α → Prop
  | nil => True
  | node label children rest => holds label ∧ children.All holds ∧ rest.All holds

def map {β : Type} (change : α → β) : Forest α → Forest β
  | nil => nil
  | node label children rest => node (change label) (children.map change) (rest.map change)

theorem map_id (forest : Forest α) : forest.map id = forest := by
  induction forest with
  | nil => rfl
  | node label children rest ihChildren ihRest => rw [map, ihChildren, ihRest, id]

theorem outline_map {β : Type} (change : α → β) (forest : Forest α) (depth : Nat) :
    (forest.map change).outline depth = (forest.outline depth).map fun line => (line.1, change line.2) := by
  induction forest generalizing depth with
  | nil => rfl
  | node label children rest ihChildren ihRest => simp [map, outline, ihChildren, ihRest]

theorem outline_all (holds : α → Prop) (forest : Forest α) (depth : Nat) (every : forest.All holds) :
    ∀ line ∈ forest.outline depth, holds line.2 := by
  induction forest generalizing depth with
  | nil => exact fun _ absent => absurd absent List.not_mem_nil
  | node label children rest ihChildren ihRest =>
      obtain ⟨own, inner, later⟩ := every
      intro line member
      rcases List.mem_cons.mp member with rfl | behind
      · exact own
      · rcases List.mem_append.mp behind with child | sibling
        · exact ihChildren (depth + 1) inner line child
        · exact ihRest depth later line sibling

end Forest

def Above (depth : Nat) (behind : List (Line α)) : Prop := ∀ line, behind.head? = some line → line.1 < depth

theorem outline_above (forest : Forest α) (depth : Nat) (behind : List (Line α)) (above : Above depth behind) :
    Above (depth + 1) (forest.outline depth ++ behind) := by
  intro line first
  cases forest with
  | nil => exact Nat.lt_succ_of_lt (above line first)
  | node label children rest =>
      obtain rfl : (depth, label) = line := Option.some.inj first
      exact Nat.lt_succ_self depth

theorem outline_nil_apart (label : α) (children rest : Forest α) (depth : Nat) (behind behind' : List (Line α))
    (above : Above depth behind) (same : behind = (Forest.node label children rest).outline depth ++ behind') : False :=
  Nat.lt_irrefl depth (above (depth, label) (by rw [same]; rfl))

theorem outline_apart (first second : Forest α) (depth : Nat) (behind behind' : List (Line α)) (above : Above depth behind)
    (above' : Above depth behind') (same : first.outline depth ++ behind = second.outline depth ++ behind') :
    first = second ∧ behind = behind' := by
  induction first generalizing second depth behind behind' with
  | nil =>
      cases second with
      | nil => exact ⟨rfl, same⟩
      | node label children rest => exact (outline_nil_apart label children rest depth behind behind' above same).elim
  | node label children rest ihChildren ihRest =>
      cases second with
      | nil => exact (outline_nil_apart label children rest depth behind' behind above' same.symm).elim
      | node label' children' rest' =>
          simp only [Forest.outline, List.cons_append, List.append_assoc] at same
          obtain ⟨heads, tails⟩ := List.cons.inj same
          obtain ⟨_, rfl⟩ := Prod.mk.inj heads
          obtain ⟨rfl, siblings⟩ := ihChildren children' (depth + 1) _ _ (outline_above rest depth behind above)
            (outline_above rest' depth behind' above') tails
          obtain ⟨rfl, after⟩ := ihRest rest' depth behind behind' above above' siblings
          exact ⟨rfl, after⟩

theorem outline_injective (first second : Forest α) (depth : Nat) (same : first.outline depth = second.outline depth) :
    first = second :=
  (outline_apart first second depth [] [] (fun _ absent => nomatch absent) (fun _ absent => nomatch absent)
    (congrArg (· ++ []) same)).1

theorem lines_apart {β γ : Type} (render : Line α → β) (key : α → γ) (holds : α → Prop)
    (apart : ∀ one two, holds one.2 → holds two.2 → render one = render two → one.1 = two.1 ∧ key one.2 = key two.2)
    (first second : List (Line α)) (every : ∀ line ∈ first, holds line.2) (every' : ∀ line ∈ second, holds line.2)
    (same : first.map render = second.map render) :
    (first.map fun line => (line.1, key line.2)) = second.map fun line => (line.1, key line.2) := by
  induction first generalizing second with
  | nil => rw [List.map_eq_nil_iff.mp same.symm]
  | cons one first ih =>
      cases second with
      | nil => exact absurd same (List.cons_ne_nil _ _)
      | cons two second =>
          obtain ⟨heads, tails⟩ := List.cons.inj same
          obtain ⟨depths, keys⟩ := apart one two (every one List.mem_cons_self) (every' two List.mem_cons_self) heads
          have later := ih second (fun line member => every line (List.mem_cons_of_mem one member))
            (fun line member => every' line (List.mem_cons_of_mem two member)) tails
          rw [List.map_cons, List.map_cons, later, depths, keys]

theorem written_apart {β γ : Type} [DecidableEq β] (mark : β) (render : Line α → List β) (key : α → γ) (holds : α → Prop)
    (apart : ∀ one two, holds one.2 → holds two.2 → render one = render two → one.1 = two.1 ∧ key one.2 = key two.2)
    (outside : ∀ line, holds line.2 → mark ∉ render line) (first second : Forest α) (depth : Nat) (every : first.All holds)
    (every' : second.All holds) (same : (first.outline depth).flatMap (fun line => render line ++ [mark]) =
      (second.outline depth).flatMap fun line => render line ++ [mark]) : first.map key = second.map key := by
  have held := Forest.outline_all holds first depth every
  have held' := Forest.outline_all holds second depth every'
  have lines := congrArg (Records.linesOf mark) same
  rw [Records.lines_of_flat mark render _ fun line member => outside line (held line member),
    Records.lines_of_flat mark render _ fun line member => outside line (held' line member)] at lines
  refine outline_injective _ _ depth ?_
  rw [Forest.outline_map, Forest.outline_map]
  exact lines_apart render key holds apart _ _ held held' lines

end Libx.Outline

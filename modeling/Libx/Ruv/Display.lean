import Libx.Lib.Outline
import Libx.Ruv.Model
import Mathlib.Algebra.GroupWithZero.Nat

set_option autoImplicit false

namespace Libx.Viewer

open Outline (Forest Line)
open Records (linesOf span_apart repeat_apart)

section Columns

local instance threeColumns : NeZero 3 := ⟨by decide⟩

def offsetIncrement : Text := [' ']

def agreement (same : Prop) [Decidable same] : Text := if same then " |=| ".toList else " |!| ".toList

-- What display_imp writes behind " = " for a node without children.
def leafValues (val : Column → Text) : Text :=
  (if val 0 ≠ [] then val 0 else "[]".toList) ++
    if val 1 ≠ [] then
      agreement (val 0 = val 1) ++ val 1 ++ if val 2 ≠ [] then agreement (val 1 = val 2) ++ val 2 else []
    else if val 2 ≠ [] then " || [] || ".toList ++ val 2 else []

mutual
def Ruv.displayNode (roffset : Text) : Ruv → Text
  | .node tag val children =>
      if children.isEmpty then roffset ++ tag ++ " = ".toList ++ leafValues val ++ ['\n']
      else roffset ++ tag ++ " = ".toList ++ val 0 ++ ['\n'] ++ displayImp (roffset ++ offsetIncrement) children
def displayImp (roffset : Text) : List Ruv → Text
  | [] => []
  | p :: rest => p.displayNode roffset ++ displayImp roffset rest
end

def displayRaw (rT : List Ruv) : Text := displayImp [] rT

-- width4_t
structure Widths where
  tag : Nat
  first : Nat
  second : Nat
  third : Nat
deriving DecidableEq, Repr

def Widths.widen (widths : Widths) (tag : Nat) (val : Column → Text) : Widths :=
  ⟨max widths.tag tag, max widths.first (val 0).length, max widths.second (val 1).length, max widths.third (val 2).length⟩

mutual
def Ruv.widths (widths : Widths) (roffset : Text) : Ruv → Widths
  | .node tag val children =>
      if children.isEmpty then widths.widen (roffset.length + tag.length) val
      else ruvWidthsImp widths (roffset ++ offsetIncrement) children
def ruvWidthsImp (widths : Widths) (roffset : Text) : List Ruv → Widths
  | [] => widths
  | p :: rest => ruvWidthsImp (p.widths widths roffset) roffset rest
end

def leftPad (str : Text) (width : Nat) : Text := str.leftpad width ' '
def rightPad (str : Text) (width : Nat) : Text := str.rightpad width ' '

-- Without a second value the third one is not padded and does not stand in its column.
def paddedValues (widths : Widths) (val : Column → Text) : Text :=
  (if val 0 ≠ [] then leftPad (val 0) widths.first else leftPad [] widths.first) ++
    if val 1 ≠ [] then
      agreement (val 0 = val 1) ++ rightPad (val 1) widths.second ++
        if val 2 ≠ [] then agreement (val 1 = val 2) ++ rightPad (val 2) widths.third else []
    else if val 2 ≠ [] then " || [] || ".toList ++ val 2 else []

mutual
def Ruv.paddedNode (roffset : Text) (widths : Widths) : Ruv → Text
  | .node tag val children =>
      if children.isEmpty then rightPad (roffset ++ tag) widths.tag ++ " = ".toList ++ paddedValues widths val ++ ['\n']
      else roffset ++ tag ++ " = ".toList ++ val 0 ++ ['\n'] ++ paddedDisplayImp (roffset ++ offsetIncrement) widths children
def paddedDisplayImp (roffset : Text) (widths : Widths) : List Ruv → Text
  | [] => []
  | p :: rest => p.paddedNode roffset widths ++ paddedDisplayImp roffset widths rest
end

def ruvWidths (rT : List Ruv) : Widths := ruvWidthsImp ⟨0, 0, 0, 0⟩ [] rT

def displayPadded (rT : List Ruv) : Text := paddedDisplayImp [] (ruvWidths rT) rT

structure Cell where
  tag : Text
  val : Column → Text
  leaf : Bool

mutual
def Ruv.cells : Ruv → Forest Cell → Forest Cell
  | .node tag val children, rest => .node ⟨tag, val, children.isEmpty⟩ (cellsOf children) rest
def cellsOf : List Ruv → Forest Cell
  | [] => .nil
  | p :: rest => p.cells (cellsOf rest)
end

def blanks (depth : Nat) : Text := List.replicate depth ' '

def Cell.values (cell : Cell) : Text := if cell.leaf then leafValues cell.val else cell.val 0

def rawLine (line : Line Cell) : Text := blanks line.1 ++ line.2.tag ++ " = ".toList ++ line.2.values

def paddedLine (widths : Widths) (line : Line Cell) : Text :=
  if line.2.leaf then rightPad (blanks line.1 ++ line.2.tag) widths.tag ++ " = ".toList ++ paddedValues widths line.2.val
  else blanks line.1 ++ line.2.tag ++ " = ".toList ++ line.2.val 0

def widenLine (widths : Widths) (line : Line Cell) : Widths :=
  if line.2.leaf then widths.widen (line.1 + line.2.tag.length) line.2.val else widths

theorem blanks_succ (depth : Nat) : blanks depth ++ offsetIncrement = blanks (depth + 1) := List.replicate_succ'.symm

mutual
theorem Ruv.display_cells (depth : Nat) (rest : Forest Cell) : ∀ p : Ruv,
    p.displayNode (blanks depth) ++ (rest.outline depth).flatMap (fun line => rawLine line ++ ['\n']) =
      ((p.cells rest).outline depth).flatMap fun line => rawLine line ++ ['\n']
  | .node tag val children => by
      have below := display_imp_cells (depth + 1) children
      cases children with
      | nil => simp [Ruv.displayNode, Ruv.cells, cellsOf, Forest.outline, rawLine, Cell.values]
      | cons p more => simp [Ruv.displayNode, Ruv.cells, Forest.outline, rawLine, Cell.values, blanks_succ, below]
theorem display_imp_cells (depth : Nat) : ∀ children : List Ruv,
    displayImp (blanks depth) children = ((cellsOf children).outline depth).flatMap fun line => rawLine line ++ ['\n']
  | [] => rfl
  | p :: rest => by
      rw [displayImp, cellsOf, display_imp_cells depth rest]
      exact Ruv.display_cells depth (cellsOf rest) p
end

section Padded

variable (widths : Widths)

mutual
theorem Ruv.padded_cells (depth : Nat) (rest : Forest Cell) : ∀ p : Ruv,
    p.paddedNode (blanks depth) widths ++ (rest.outline depth).flatMap (fun line => paddedLine widths line ++ ['\n']) =
      ((p.cells rest).outline depth).flatMap fun line => paddedLine widths line ++ ['\n']
  | .node tag val children => by
      have below := padded_display_cells (depth + 1) children
      cases children with
      | nil => simp [Ruv.paddedNode, Ruv.cells, cellsOf, Forest.outline, paddedLine]
      | cons p more => simp [Ruv.paddedNode, Ruv.cells, Forest.outline, paddedLine, blanks_succ, below]
theorem padded_display_cells (depth : Nat) : ∀ children : List Ruv,
    paddedDisplayImp (blanks depth) widths children =
      ((cellsOf children).outline depth).flatMap fun line => paddedLine widths line ++ ['\n']
  | [] => rfl
  | p :: rest => by
      rw [paddedDisplayImp, cellsOf, padded_display_cells depth rest]
      exact Ruv.padded_cells depth (cellsOf rest) p
end

end Padded

mutual
theorem Ruv.widths_cells (depth : Nat) (rest : Forest Cell) : ∀ (p : Ruv) (widths : Widths),
    (rest.outline depth).foldl widenLine (p.widths widths (blanks depth)) = ((p.cells rest).outline depth).foldl widenLine widths
  | .node tag val children, widths => by
      have below := ruv_widths_cells (depth + 1) children widths
      cases children with
      | nil => simp [Ruv.widths, Ruv.cells, cellsOf, Forest.outline, widenLine, blanks]
      | cons p more => simp [Ruv.widths, Ruv.cells, Forest.outline, blanks_succ, below, widenLine]
theorem ruv_widths_cells (depth : Nat) : ∀ (children : List Ruv) (widths : Widths),
    ruvWidthsImp widths (blanks depth) children = ((cellsOf children).outline depth).foldl widenLine widths
  | [], _ => rfl
  | p :: rest, widths => by
      rw [ruvWidthsImp, cellsOf, ruv_widths_cells depth rest]
      exact Ruv.widths_cells depth (cellsOf rest) p widths
end

def shownFirst (text : Text) : Text := if text ≠ [] then text else "[]".toList
def sign (same : Prop) [Decidable same] : Text := if same then ['='] else ['!']

-- The text is cut at every '|'; behind the last value one stands for the end.
def pieces (val : Column → Text) : List Text :=
  if val 1 ≠ [] then
    if val 2 ≠ [] then
      [shownFirst (val 0) ++ [' '], sign (val 0 = val 1), ' ' :: val 1 ++ [' '], sign (val 1 = val 2), ' ' :: val 2]
    else [shownFirst (val 0) ++ [' '], sign (val 0 = val 1), ' ' :: val 1]
  else if val 2 ≠ [] then [shownFirst (val 0) ++ [' '], [], " [] ".toList, [], ' ' :: val 2] else [shownFirst (val 0)]

def readPieces : List Text → Text × Text × Text
  | [first] => (first, [], [])
  | [first, _, second] => (first.dropLast, second.tail, [])
  | [first, [], _, _, third] => (first.dropLast, [], third.tail)
  | [first, _ :: _, second, _, third] => (first.dropLast, second.tail.dropLast, third.tail)
  | _ => ([], [], [])

theorem agreement_sign (same : Prop) [Decidable same] : agreement same = ' ' :: '|' :: sign same ++ ['|', ' '] := by
  rw [agreement, sign]
  split <;> rfl

theorem sign_cons (same : Prop) [Decidable same] : ∃ c, sign same = [c] := by
  rw [sign]
  split
  · exact ⟨'=', rfl⟩
  · exact ⟨'!', rfl⟩

theorem leaf_values_pieces (val : Column → Text) :
    leafValues val ++ ['|'] = (pieces val).flatMap fun piece => piece ++ ['|'] := by
  by_cases second : val 1 = []
  · by_cases third : val 2 = []
    · simp [leafValues, pieces, shownFirst, second, third]
    · simp [leafValues, pieces, shownFirst, second, third]
  · by_cases third : val 2 = []
    · simp [leafValues, pieces, shownFirst, second, third, agreement_sign]
    · simp [leafValues, pieces, shownFirst, second, third, agreement_sign]

theorem read_pieces (val : Column → Text) : readPieces (pieces val) = (shownFirst (val 0), val 1, val 2) := by
  obtain ⟨c, signed⟩ := sign_cons (val 0 = val 1)
  by_cases second : val 1 = []
  · by_cases third : val 2 = []
    · simp [pieces, readPieces, second, third]
    · simp [pieces, readPieces, second, third]
  · by_cases third : val 2 = []
    · simp [pieces, readPieces, second, third]
    · simp [pieces, readPieces, second, third, signed]

structure Cell.Legible (cell : Cell) : Prop where
  opens : cell.tag.head? ≠ some ' '
  equal : '=' ∉ cell.tag
  line : '\n' ∉ cell.tag
  bars : ∀ column, '|' ∉ cell.val column
  lines : ∀ column, '\n' ∉ cell.val column
  filled : cell.val 0 ≠ "[]".toList

theorem shown_first_outside (c : Char) (text : Text) (outside : c ∉ text) (other : c ∉ "[]".toList) : c ∉ shownFirst text := by
  rw [shownFirst]
  split
  · exact outside
  · exact other

theorem sign_outside (same : Prop) [Decidable same] : '|' ∉ sign same := by
  rw [sign]
  split <;> decide

theorem pieces_outside (cell : Cell) (legible : cell.Legible) : ∀ piece ∈ pieces cell.val, '|' ∉ piece := by
  have front := shown_first_outside '|' (cell.val 0) (legible.bars 0) (by decide)
  have one := legible.bars 1
  have two := legible.bars 2
  have signed := sign_outside (cell.val 0 = cell.val 1)
  have signed' := sign_outside (cell.val 1 = cell.val 2)
  by_cases second : cell.val 1 = []
  · by_cases third : cell.val 2 = []
    · simpa [pieces, second, third] using front
    · simpa [pieces, second, third, two] using front
  · by_cases third : cell.val 2 = []
    · simpa [pieces, second, third, one] using ⟨front, signed⟩
    · simpa [pieces, second, third, one, two] using ⟨front, signed, signed'⟩

theorem shown_first_apart (one two : Text) (filled : one ≠ "[]".toList) (filled' : two ≠ "[]".toList)
    (same : shownFirst one = shownFirst two) : one = two := by
  rw [shownFirst, shownFirst] at same
  by_cases empty : one = []
  · by_cases empty' : two = []
    · rw [empty, empty']
    · rw [if_neg (not_not_intro empty), if_pos empty'] at same
      exact absurd same.symm filled'
  · by_cases empty' : two = []
    · rw [if_pos empty, if_neg (not_not_intro empty')] at same
      exact absurd same filled
    · rwa [if_pos empty, if_pos empty'] at same

theorem column_ext (val val' : Column → Text) (first : val 0 = val' 0) (second : val 1 = val' 1) (third : val 2 = val' 2) :
    val = val' := by
  funext column
  match column with
  | 0 => exact first
  | 1 => exact second
  | 2 => exact third

theorem values_apart (one two : Cell) (legible : one.Legible) (legible' : two.Legible)
    (same : leafValues one.val = leafValues two.val) : one.val = two.val := by
  have cut : ∀ cell : Cell, cell.Legible → linesOf '|' (leafValues cell.val ++ ['|']) = pieces cell.val := by
    intro cell legible
    rw [leaf_values_pieces]
    exact (Records.lines_of_flat '|' id _ (pieces_outside cell legible)).trans (List.map_id _)
  have texts : readPieces (pieces one.val) = readPieces (pieces two.val) := by rw [← cut one legible, ← cut two legible', same]
  rw [read_pieces, read_pieces] at texts
  obtain ⟨first, others⟩ := Prod.mk.inj texts
  obtain ⟨second, third⟩ := Prod.mk.inj others
  exact column_ext one.val two.val (shown_first_apart _ _ legible.filled legible'.filled first) second third

def Cell.key (cell : Cell) : Text × Text := (cell.tag, cell.values)

def Cell.told (cell : Cell) : Cell :=
  if cell.leaf then cell else ⟨cell.tag, fun column => if column = 0 then cell.val 0 else [], false⟩

theorem told_key (cell : Cell) : cell.told.key = cell.key := by
  rw [Cell.told]
  split
  · rfl
  · simp_all [Cell.key, Cell.values]

theorem raw_line_apart (one two : Line Cell) (legible : one.2.Legible) (legible' : two.2.Legible)
    (same : rawLine one = rawLine two) : one.1 = two.1 ∧ one.2.key = two.2.key := by
  have shape : ∀ line : Line Cell, rawLine line = (blanks line.1 ++ line.2.tag ++ [' ']) ++ '=' :: ' ' :: line.2.values := by
    intro line
    simp [rawLine]
  have front : ∀ line : Line Cell, line.2.Legible → ∀ c ∈ blanks line.1 ++ line.2.tag ++ [' '], decide (c ≠ '=') = true := by
    intro line legible c member
    refine decide_eq_true fun equal => ?_
    rw [equal, List.append_assoc, List.mem_append, List.mem_append] at member
    obtain blank | tag | last := member
    · exact absurd (List.eq_of_mem_replicate blank) (by decide)
    · exact legible.equal tag
    · exact absurd last (by decide)
  have ends : ∀ tail : Text, ∀ c, ('=' :: tail).head? = some c → decide (c ≠ '=') = false :=
    fun tail c first => decide_eq_false fun other => other (Option.some.inj first).symm
  rw [shape, shape] at same
  obtain ⟨fronts, values⟩ := span_apart (fun c => decide (c ≠ '=')) _ _ _ _ (front one legible) (front two legible') (ends _)
    (ends _) same
  obtain ⟨depths, tags⟩ := repeat_apart ' ' _ _ _ _ legible.opens legible'.opens (List.append_cancel_right fronts)
  exact ⟨depths, Prod.ext tags (List.cons.inj (List.cons.inj values).2).2⟩

theorem leaf_values_line (cell : Cell) (legible : cell.Legible) : '\n' ∉ leafValues cell.val := by
  have front := shown_first_outside '\n' (cell.val 0) (legible.lines 0) (by decide)
  have one := legible.lines 1
  have two := legible.lines 2
  have signs : ∀ (same : Prop) [Decidable same], '\n' ∉ agreement same := by
    intro same _
    rw [agreement]
    split <;> decide
  rw [leafValues]
  intro member
  cases List.mem_append.mp member with
  | inl first => exact front first
  | inr others =>
      by_cases second : cell.val 1 = []
      · by_cases third : cell.val 2 = []
        · simp [second, third] at others
        · simp [second, third, two] at others
      · by_cases third : cell.val 2 = []
        · simp [second, third, one, signs] at others
        · simp [second, third, one, two, signs] at others

theorem raw_line_outside (line : Line Cell) (legible : line.2.Legible) : '\n' ∉ rawLine line := by
  have values : '\n' ∉ line.2.values := by
    rw [Cell.values]
    split
    · exact leaf_values_line line.2 legible
    · exact legible.lines 0
  have blank : '\n' ∉ blanks line.1 := fun member => absurd (List.eq_of_mem_replicate member) (by decide)
  simp [rawLine, blank, legible.line, values]

def Flagged : Forest Cell → Prop
  | .nil => True
  | .node cell children rest => (cell.leaf = true ↔ children = .nil) ∧ Flagged children ∧ Flagged rest

mutual
theorem Ruv.cells_flagged (rest : Forest Cell) (later : Flagged rest) : ∀ p : Ruv, Flagged (p.cells rest)
  | .node tag val children => by
      refine ⟨?_, cells_of_flagged children, later⟩
      cases children with
      | nil => exact ⟨fun _ => rfl, fun _ => rfl⟩
      | cons p more =>
          obtain ⟨tag, val, inner⟩ := p
          exact ⟨fun empty => absurd empty Bool.false_ne_true, fun none => nomatch none⟩
theorem cells_of_flagged : ∀ children : List Ruv, Flagged (cellsOf children)
  | [] => trivial
  | p :: rest => Ruv.cells_flagged (cellsOf rest) (cells_of_flagged rest) p
end

theorem map_nil_iff {β : Type} (change : Cell → β) (forest : Forest Cell) : forest.map change = .nil ↔ forest = .nil := by
  cases forest with
  | nil => exact ⟨fun _ => rfl, fun _ => rfl⟩
  | node cell children rest => exact ⟨fun none => (nomatch none), fun none => (nomatch none)⟩

theorem keys_told (first second : Forest Cell) (flagged : Flagged first) (flagged' : Flagged second)
    (legible : first.All Cell.Legible) (legible' : second.All Cell.Legible) (same : first.map Cell.key = second.map Cell.key) :
    first.map Cell.told = second.map Cell.told := by
  induction first generalizing second with
  | nil =>
      obtain rfl := (map_nil_iff Cell.key second).mp same.symm
      rfl
  | node cell children rest ihChildren ihRest =>
      cases second with
      | nil => exact nomatch same
      | node cell' children' rest' =>
          obtain ⟨keys, inner, later⟩ := Forest.node.inj same
          obtain ⟨leaf, flaggedChildren, flaggedRest⟩ := flagged
          obtain ⟨leaf', flaggedChildren', flaggedRest'⟩ := flagged'
          obtain ⟨own, legibleChildren, legibleRest⟩ := legible
          obtain ⟨own', legibleChildren', legibleRest'⟩ := legible'
          have below := ihChildren children' flaggedChildren flaggedChildren' legibleChildren legibleChildren' inner
          have behind := ihRest rest' flaggedRest flaggedRest' legibleRest legibleRest' later
          have childless : children = .nil ↔ children' = .nil := by
            rw [← map_nil_iff Cell.key children, ← map_nil_iff Cell.key children', inner]
          have flags : cell.leaf = true ↔ cell'.leaf = true := leaf.trans (childless.trans leaf'.symm)
          obtain ⟨tags, values⟩ := Prod.mk.inj keys
          have cells : cell.told = cell'.told := by
            rw [Cell.values, Cell.values] at values
            rw [Cell.told, Cell.told]
            by_cases isLeaf : cell.leaf = true
            · rw [if_pos isLeaf, if_pos (flags.mp isLeaf)] at values ⊢
              obtain ⟨tag, val, flag⟩ := cell
              obtain ⟨tag', val', flag'⟩ := cell'
              rw [show val = val' from values_apart _ _ own own' values, show tag = tag' from tags,
                show flag = flag' from Bool.eq_iff_iff.mpr flags]
            · rw [if_neg isLeaf, if_neg (mt flags.mpr isLeaf)] at values ⊢
              rw [tags, values]
          rw [Forest.map, Forest.map, cells, below, behind]

theorem display_told (first second : List Ruv) (legible : (cellsOf first).All Cell.Legible)
    (legible' : (cellsOf second).All Cell.Legible) :
    displayRaw first = displayRaw second ↔ (cellsOf first).map Cell.told = (cellsOf second).map Cell.told := by
  have lines : ∀ rT : List Ruv, displayRaw rT = ((cellsOf rT).outline 0).flatMap fun line => rawLine line ++ ['\n'] :=
    fun rT => display_imp_cells 0 rT
  rw [lines, lines]
  refine ⟨fun same => ?_, fun told => ?_⟩
  · have keys := Outline.written_apart '\n' rawLine Cell.key Cell.Legible raw_line_apart raw_line_outside _ _ 0 legible legible' same
    exact keys_told _ _ (cells_of_flagged first) (cells_of_flagged second) legible legible' keys
  · have keyed : ∀ forest : Forest Cell, ((forest.outline 0).flatMap fun line => rawLine line ++ ['\n']) =
        ((forest.map Cell.told).outline 0).flatMap fun line => rawLine line ++ ['\n'] := by
      intro forest
      rw [Forest.outline_map, List.flatMap_map]
      refine List.flatMap_congr fun line _ => ?_
      obtain ⟨tags, values⟩ := Prod.mk.inj (told_key line.2)
      rw [rawLine, rawLine, tags, values]
    rw [keyed, told, ← keyed]

theorem display_told_parties :
    let party (counter : Text) : Ruv :=
      .node ['4', '5', '3'] (fun column => if column = 0 then ['1'] else counter) [.node ['4', '4', '8'] (fun _ => ['A']) []]
    displayRaw [party ['1']] = displayRaw [party ['2']] ↔
      (cellsOf [party ['1']]).map Cell.told = (cellsOf [party ['2']]).map Cell.told := by
  intro party
  have legible : ∀ counter ∈ [['1'], ['2']], (cellsOf [party counter]).All Cell.Legible := by
    intro counter member
    have own : '|' ∉ counter ∧ '\n' ∉ counter := by
      simp at member
      cases member with
      | inl one => rw [one]; decide
      | inr two => rw [two]; decide
    refine ⟨⟨by simp, by simp, by simp, ?_, ?_, by simp⟩, ⟨⟨by simp, by simp, by simp, ?_, ?_, by simp⟩, trivial, trivial⟩, trivial⟩
    · intro column
      dsimp only
      split
      · decide
      · exact own.1
    · intro column
      dsimp only
      split
      · decide
      · exact own.2
    · exact fun _ => by simp
    · exact fun _ => by simp
  exact display_told [party ['1']] [party ['2']] (legible ['1'] (by decide)) (legible ['2'] (by decide))

def At (line : Text) (column : Nat) (text : Text) : Prop := text <+: line.drop column

structure Aligned (widths : Widths) (line : Line Cell) : Prop where
  tag : At (paddedLine widths line) line.1 line.2.tag
  equal : At (paddedLine widths line) widths.tag " = ".toList
  first : At (paddedLine widths line) (widths.tag + 3 + (widths.first - (line.2.val 0).length)) (line.2.val 0)
  second : line.2.val 1 ≠ [] → At (paddedLine widths line) (widths.tag + 3 + widths.first)
    (agreement (line.2.val 0 = line.2.val 1) ++ line.2.val 1)
  third : line.2.val 1 ≠ [] → line.2.val 2 ≠ [] → At (paddedLine widths line) (widths.tag + 8 + widths.first + widths.second)
    (agreement (line.2.val 1 = line.2.val 2) ++ line.2.val 2)
  lone : line.2.val 1 = [] → line.2.val 2 ≠ [] → At (paddedLine widths line) (widths.tag + 3 + widths.first)
    (" || [] || ".toList ++ line.2.val 2)

structure Fits (widths : Widths) (line : Line Cell) : Prop where
  tag : line.1 + line.2.tag.length ≤ widths.tag
  first : (line.2.val 0).length ≤ widths.first
  second : (line.2.val 1).length ≤ widths.second
  third : (line.2.val 2).length ≤ widths.third

theorem at_behind (line front text rest : Text) (column : Nat) (shape : line = front ++ (text ++ rest)) (place : front.length = column) :
    At line column text := by
  rw [At, shape, ← place, List.drop_left]
  exact List.prefix_append text rest

section Widest

variable (field : Widths → Nat) (size : Line Cell → Nat)
variable (step : ∀ widths line, field (widenLine widths line) = if line.2.leaf then max (field widths) (size line) else field widths)

include step

theorem widths_grow (lines : List (Line Cell)) (widths : Widths) : field widths ≤ field (lines.foldl widenLine widths) := by
  induction lines generalizing widths with
  | nil => exact Nat.le_refl _
  | cons line lines ih =>
      refine Nat.le_trans ?_ (ih (widenLine widths line))
      rw [step]
      split
      · exact Nat.le_max_left _ _
      · exact Nat.le_refl _

theorem widths_cover (lines : List (Line Cell)) (widths : Widths) :
    ∀ line ∈ lines, line.2.leaf = true → size line ≤ field (lines.foldl widenLine widths) := by
  induction lines generalizing widths with
  | nil => exact fun _ absent => absurd absent List.not_mem_nil
  | cons line lines ih =>
      intro other member leaf
      cases List.mem_cons.mp member with
      | inl own =>
          refine Nat.le_trans ?_ (widths_grow field size step lines (widenLine widths line))
          rw [step, ← own, if_pos leaf]
          exact Nat.le_max_right _ _
      | inr later => exact ih (widenLine widths line) other later leaf

theorem widths_reached (lines : List (Line Cell)) (widths : Widths) : field (lines.foldl widenLine widths) = field widths ∨
    ∃ line ∈ lines, line.2.leaf = true ∧ size line = field (lines.foldl widenLine widths) := by
  induction lines generalizing widths with
  | nil => exact .inl rfl
  | cons line lines ih =>
      rw [List.foldl_cons]
      rcases ih (widenLine widths line) with start | ⟨other, member, leaf, reached⟩
      · rw [start, step]
        by_cases leaf : line.2.leaf = true
        · rw [if_pos leaf]
          rcases Nat.le_total (size line) (field widths) with small | large
          · exact .inl (Nat.max_eq_left small)
          · exact .inr ⟨line, List.mem_cons_self, leaf, (Nat.max_eq_right large).symm⟩
        · exact .inl (if_neg leaf)
      · exact .inr ⟨other, List.mem_cons_of_mem line member, leaf, reached⟩

end Widest

theorem right_pad_blanks (str : Text) (width : Nat) : rightPad str width = str ++ blanks (width - str.length) := rfl

theorem left_pad_blanks (str : Text) (width : Nat) : leftPad str width = blanks (width - str.length) ++ str := rfl

@[simp] theorem blanks_length (count : Nat) : (blanks count).length = count := List.length_replicate

@[simp] theorem agreement_length (same : Prop) [Decidable same] : (agreement same).length = 5 := by
  rw [agreement]
  split <;> rfl

def otherValues (widths : Widths) (val : Column → Text) : Text :=
  if val 1 ≠ [] then
    agreement (val 0 = val 1) ++ rightPad (val 1) widths.second ++
      if val 2 ≠ [] then agreement (val 1 = val 2) ++ rightPad (val 2) widths.third else []
  else if val 2 ≠ [] then " || [] || ".toList ++ val 2 else []

theorem padded_line_leaf (widths : Widths) (line : Line Cell) (leaf : line.2.leaf = true) :
    paddedLine widths line = blanks line.1 ++ line.2.tag ++ blanks (widths.tag - (line.1 + line.2.tag.length)) ++ " = ".toList ++
      blanks (widths.first - (line.2.val 0).length) ++ line.2.val 0 ++ otherValues widths line.2.val := by
  have first : (if line.2.val 0 ≠ [] then leftPad (line.2.val 0) widths.first else leftPad [] widths.first) =
      leftPad (line.2.val 0) widths.first := by
    by_cases empty : line.2.val 0 = []
    · rw [if_neg (not_not_intro empty), empty]
    · rw [if_pos empty]
  rw [paddedLine, if_pos leaf, paddedValues, first, right_pad_blanks, left_pad_blanks, List.length_append, blanks_length]
  simp only [List.append_assoc, otherValues]

theorem padded_aligned (widths : Widths) (line : Line Cell) (leaf : line.2.leaf = true) (fits : Fits widths line) :
    Aligned widths line := by
  have shape := padded_line_leaf widths line leaf
  have tagFits := fits.tag
  have firstFits := fits.first
  have secondFits := fits.second
  let gap := blanks (widths.tag - (line.1 + line.2.tag.length))
  let cell := blanks (widths.first - (line.2.val 0).length) ++ line.2.val 0
  -- what stands before the second value is as wide in every line
  let lead := blanks line.1 ++ line.2.tag ++ gap ++ " = ".toList ++ cell
  have leadWidth : lead.length = widths.tag + 3 + widths.first := by
    simp [lead, gap, cell]
    omega
  have whole : paddedLine widths line = lead ++ otherValues widths line.2.val := by
    rw [shape]
    simp only [lead, cell, List.append_assoc]
    rfl
  refine ⟨?_, ?_, ?_, fun second => ?_, fun second third => ?_, fun second third => ?_⟩
  · refine at_behind _ (blanks line.1) _ (gap ++ " = ".toList ++ cell ++ otherValues widths line.2.val) _ ?_ (blanks_length line.1)
    simp only [whole, lead, List.append_assoc]
  · refine at_behind _ (blanks line.1 ++ line.2.tag ++ gap) _ (cell ++ otherValues widths line.2.val) _ ?_ ?_
    · simp only [whole, lead, List.append_assoc]
    · simp [gap]
      omega
  · refine at_behind _ _ _ _ _ (shape.trans (List.append_assoc _ _ _)) ?_
    simp
    omega
  · refine at_behind _ lead _ (blanks (widths.second - (line.2.val 1).length) ++
      if line.2.val 2 ≠ [] then agreement (line.2.val 1 = line.2.val 2) ++ rightPad (line.2.val 2) widths.third else []) _ ?_ leadWidth
    rw [whole, otherValues, if_pos second, right_pad_blanks]
    simp only [List.append_assoc]
  · refine at_behind _ (lead ++ (agreement (line.2.val 0 = line.2.val 1) ++ rightPad (line.2.val 1) widths.second)) _
      (blanks (widths.third - (line.2.val 2).length)) _ ?_ ?_
    · rw [whole, otherValues, if_pos second, if_pos third, right_pad_blanks (line.2.val 2)]
      simp only [List.append_assoc]
    · simp [leadWidth, right_pad_blanks]
      omega
  · refine at_behind _ lead _ [] _ ?_ leadWidth
    rw [whole, otherValues, if_neg (not_not_intro second), if_pos third, List.append_nil]

structure Tight (widths : Widths) (lines : List (Line Cell)) : Prop where
  tag : widths.tag = 0 ∨ ∃ line ∈ lines, line.2.leaf = true ∧ line.1 + line.2.tag.length = widths.tag
  first : widths.first = 0 ∨ ∃ line ∈ lines, line.2.leaf = true ∧ (line.2.val 0).length = widths.first
  second : widths.second = 0 ∨ ∃ line ∈ lines, line.2.leaf = true ∧ (line.2.val 1).length = widths.second
  third : widths.third = 0 ∨ ∃ line ∈ lines, line.2.leaf = true ∧ (line.2.val 2).length = widths.third

section Fitting

variable (rT : List Ruv)

theorem widths_of_cells : ruvWidths rT = ((cellsOf rT).outline 0).foldl widenLine ⟨0, 0, 0, 0⟩ := ruv_widths_cells 0 rT ⟨0, 0, 0, 0⟩

theorem widen_tag (widths : Widths) (line : Line Cell) : (widenLine widths line).tag =
    if line.2.leaf then max widths.tag (line.1 + line.2.tag.length) else widths.tag := by
  rw [widenLine]
  split <;> rfl

theorem widen_first (widths : Widths) (line : Line Cell) : (widenLine widths line).first =
    if line.2.leaf then max widths.first (line.2.val 0).length else widths.first := by
  rw [widenLine]
  split <;> rfl

theorem widen_second (widths : Widths) (line : Line Cell) : (widenLine widths line).second =
    if line.2.leaf then max widths.second (line.2.val 1).length else widths.second := by
  rw [widenLine]
  split <;> rfl

theorem widen_third (widths : Widths) (line : Line Cell) : (widenLine widths line).third =
    if line.2.leaf then max widths.third (line.2.val 2).length else widths.third := by
  rw [widenLine]
  split <;> rfl

theorem widths_fit : ∀ line ∈ (cellsOf rT).outline 0, line.2.leaf = true → Fits (ruvWidths rT) line := by
  intro line member leaf
  rw [widths_of_cells]
  exact ⟨widths_cover _ _ widen_tag _ _ line member leaf, widths_cover _ _ widen_first _ _ line member leaf,
    widths_cover _ _ widen_second _ _ line member leaf, widths_cover _ _ widen_third _ _ line member leaf⟩

theorem widths_tight : Tight (ruvWidths rT) ((cellsOf rT).outline 0) := by
  rw [widths_of_cells]
  exact ⟨widths_reached _ _ widen_tag _ _, widths_reached _ _ widen_first _ _, widths_reached _ _ widen_second _ _,
    widths_reached _ _ widen_third _ _⟩

end Fitting

def Cell.OneLine (cell : Cell) : Prop := '\n' ∉ cell.tag ∧ ∀ column, '\n' ∉ cell.val column

theorem blanks_outside (count : Nat) : '\n' ∉ blanks count := fun member => absurd (List.eq_of_mem_replicate member) (by decide)

theorem padded_line_outside (widths : Widths) (line : Line Cell) (clean : line.2.OneLine) : '\n' ∉ paddedLine widths line := by
  obtain ⟨tag, vals⟩ := clean
  have signs : ∀ (same : Prop) [Decidable same], '\n' ∉ agreement same := by
    intro same _
    rw [agreement]
    split <;> decide
  by_cases leaf : line.2.leaf = true
  · have others : '\n' ∉ otherValues widths line.2.val := by
      by_cases second : line.2.val 1 = []
      · by_cases third : line.2.val 2 = []
        · simp [otherValues, second, third]
        · simp [otherValues, second, third, vals]
      · by_cases third : line.2.val 2 = []
        · simp [otherValues, second, third, vals, signs, right_pad_blanks, blanks_outside]
        · simp [otherValues, second, third, vals, signs, right_pad_blanks, blanks_outside]
    rw [padded_line_leaf widths line leaf]
    simp [blanks_outside, tag, vals, others]
  · simp [paddedLine, leaf, blanks_outside, tag, vals]

end Columns

end Libx.Viewer

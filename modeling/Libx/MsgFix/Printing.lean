import Libx.Lib.Fallible
import Libx.Lib.Outline
import Libx.Lib.Records
import Libx.MsgFix.RoundTrip
import Libx.MsgFix.Structure

set_option autoImplicit false

namespace Libx.Trd

open Counted (Groups)
open Outline (Forest Line)
open Records (linesOf span_apart repeat_apart)

-- MsgFix_ostream_imp and MsgFix_printer_imp are one loop; they differ in what a
-- level adds to the offset. The value of an entry's counter is not printed.
mutual
def MsgFix.printLines (step roffset : Text) : MsgFix → Text
  | .node true inttag val _ => roffset ++ intText inttag ++ " = ".toList ++ val ++ ['\n']
  | .node false inttag _ children => roffset ++ intText inttag ++ ['\n'] ++ printLinesOf step (roffset ++ step) children
def printLinesOf (step roffset : Text) : List MsgFix → Text
  | [] => []
  | p :: rest => p.printLines step roffset ++ printLinesOf step roffset rest
end

def msgFixOstreamImp (rMsgFix : MsgFix) (roffset : Text) : Text := printLinesOf "--".toList roffset rMsgFix.children
def MsgFix.ostream (rMsgFix : MsgFix) : Text := msgFixOstreamImp rMsgFix []

def msgFixPrinterImp (rMsgFix : MsgFix) (roffset : Text) : Text := printLinesOf "  ".toList roffset rMsgFix.children
def msgFixPrinter (rMsgFix : MsgFix) : Text := msgFixPrinterImp rMsgFix []

mutual
def MsgFix.debugLines (level : Nat) : MsgFix → Text
  | .node istag inttag val children =>
      intText inttag ++ '[' :: Nat.toDigits 10 level ++ [']'] ++ (if istag then '=' :: val else []) ++ [';'] ++
        msgFixDebugerImp (level + 1) children
def msgFixDebugerImp (level : Nat) : List MsgFix → Text
  | [] => []
  | p :: rest => p.debugLines level ++ msgFixDebugerImp level rest
end

def msgFixDebuger (rMsgFix : MsgFix) : Text := msgFixDebugerImp 0 rMsgFix.children

abbrev Shown := Int32 × Option Text

mutual
def MsgFix.shown : MsgFix → Forest Shown → Forest Shown
  | .node istag inttag val children, rest => .node (inttag, if istag then some val else none) (shownOf children) rest
def shownOf : List MsgFix → Forest Shown
  | [] => .nil
  | p :: rest => p.shown (shownOf rest)
end

inductive MsgFix.Clean (mark : Char) : MsgFix → Prop where
  | tag (inttag : Int32) (val : Text) (outside : mark ∉ val) : Clean mark (.node true inttag val [])
  | entry (inttag : Int32) (val : Text) (children : List MsgFix) (inner : ∀ p ∈ children, Clean mark p) :
      Clean mark (.node false inttag val children)

def Shown.field (shown : Shown) : Text :=
  match shown.2 with
  | some val => " = ".toList ++ val
  | none => []

def offset (step : Text) (depth : Nat) : Text := (List.replicate depth step).flatten

def printLine (step : Text) (line : Line Shown) : Text := offset step line.1 ++ intText line.2.1 ++ line.2.field

def debugLine (line : Line Shown) : Text :=
  intText line.2.1 ++ '[' :: Nat.toDigits 10 line.1 ++ [']'] ++
    match line.2.2 with
    | some val => '=' :: val
    | none => []

theorem offset_succ (step : Text) (depth : Nat) : offset step (depth + 1) = offset step depth ++ step := by
  rw [offset, List.replicate_succ', List.flatten_append, List.flatten_singleton]
  rfl

section Layout

variable {mark : Char} (step : Text)

mutual
theorem MsgFix.print_lines_shown (depth : Nat) (rest : Forest Shown) : ∀ p : MsgFix, p.Clean mark →
    p.printLines step (offset step depth) ++ (rest.outline depth).flatMap (fun shown => printLine step shown ++ ['\n']) =
      ((p.shown rest).outline depth).flatMap fun shown => printLine step shown ++ ['\n']
  | .node true inttag val children, clean => by
      obtain rfl : children = [] := by
        cases clean
        rfl
      simp [MsgFix.printLines, MsgFix.shown, shownOf, Forest.outline, printLine, Shown.field]
  | .node false inttag val children, clean => by
      have inner : ∀ p ∈ children, p.Clean mark := by
        cases clean with
        | entry _ _ _ inner => exact inner
      have below := print_lines_of_shown (depth + 1) children inner
      simp [MsgFix.printLines, MsgFix.shown, Forest.outline, printLine, Shown.field, ← offset_succ, below]
theorem print_lines_of_shown (depth : Nat) : ∀ children : List MsgFix, (∀ p ∈ children, p.Clean mark) →
    printLinesOf step (offset step depth) children =
      ((shownOf children).outline depth).flatMap fun shown => printLine step shown ++ ['\n']
  | [], _ => rfl
  | p :: rest, clean => by
      rw [printLinesOf, shownOf, print_lines_of_shown depth rest fun other member => clean other (List.mem_cons_of_mem p member)]
      exact MsgFix.print_lines_shown depth (shownOf rest) p (clean p List.mem_cons_self)
end

end Layout

mutual
theorem MsgFix.debug_lines_shown (depth : Nat) (rest : Forest Shown) : ∀ p : MsgFix,
    p.debugLines depth ++ (rest.outline depth).flatMap (fun shown => debugLine shown ++ [';']) =
      ((p.shown rest).outline depth).flatMap fun shown => debugLine shown ++ [';']
  | .node istag inttag val children => by
      have below := debuger_shown (depth + 1) children
      cases istag <;> simp [MsgFix.debugLines, MsgFix.shown, Forest.outline, debugLine, below]
theorem debuger_shown (depth : Nat) : ∀ children : List MsgFix,
    msgFixDebugerImp depth children = ((shownOf children).outline depth).flatMap fun shown => debugLine shown ++ [';']
  | [] => rfl
  | p :: rest => by
      rw [msgFixDebugerImp, shownOf, debuger_shown depth rest]
      exact MsgFix.debug_lines_shown depth (shownOf rest) p
end

def Numeral (c : Char) : Bool := c.isDigit || c == '-'

theorem int_text_numeral (n : Int32) : ∀ c ∈ intText n, Numeral c = true := by
  have digits : ∀ c ∈ Nat.toDigits 10 n.toInt.natAbs, Numeral c = true := by
    intro c member
    rw [Numeral, decimal_digits _ c member, Bool.true_or]
  intro c member
  rw [intText] at member
  by_cases negative : n.toInt < 0
  · rw [if_pos negative] at member
    cases List.mem_cons.mp member with
    | inl sign => rw [sign]; rfl
    | inr digit => exact digits c digit
  · rw [if_neg negative] at member
    exact digits c member

theorem int_text_injective (n m : Int32) (same : intText n = intText m) : n = m := by
  have read := congrArg stoi same
  rw [stoi_int_text, stoi_int_text] at read
  exact Except.ok.inj read

theorem field_head (shown : Shown) : ∀ c, shown.field.head? = some c → Numeral c = false := by
  intro c first
  cases value : shown.2 with
  | none => simp [Shown.field, value] at first
  | some val =>
      obtain rfl : ' ' = c := by simpa [Shown.field, value] using first
      rfl

theorem field_injective (first second : Shown) (same : first.field = second.field) : first.2 = second.2 := by
  rw [Shown.field, Shown.field] at same
  cases one : first.2 with
  | none =>
      cases two : second.2 with
      | none => rfl
      | some val => simp [one, two] at same
  | some val =>
      cases two : second.2 with
      | none => simp [one, two] at same
      | some other =>
          rw [one, two] at same
          rw [List.append_cancel_left same]

theorem label_apart (first second : Shown) (same : intText first.1 ++ first.field = intText second.1 ++ second.field) :
    first = second := by
  obtain ⟨numbers, fields⟩ := span_apart Numeral _ _ _ _ (int_text_numeral first.1) (int_text_numeral second.1)
    (field_head first) (field_head second) same
  exact Prod.ext (int_text_injective _ _ numbers) (field_injective first second fields)

theorem pair_offset (c : Char) (depth : Nat) : offset [c, c] depth = List.replicate (2 * depth) c := by
  induction depth with
  | zero => rfl
  | succ depth ih => rw [offset_succ, ih, Nat.mul_succ, List.replicate_add]; rfl

theorem printer_line_apart (first second : Line Shown) (same : printLine "  ".toList first = printLine "  ".toList second) :
    first = second := by
  have begins : ∀ shown : Shown, (intText shown.1 ++ shown.field).head? ≠ some ' ' := by
    intro shown blank
    obtain ⟨c, tail, shape⟩ : ∃ c tail, intText shown.1 = c :: tail := by
      rw [intText]
      split
      · exact ⟨_, _, rfl⟩
      · exact List.exists_cons_of_ne_nil Nat.toDigits_ne_nil
    rw [shape, List.cons_append, List.head?_cons] at blank
    have numeral := int_text_numeral shown.1 c (by simp [shape])
    rw [Option.some.inj blank] at numeral
    exact absurd numeral (by decide)
  have lines : ∀ line : Line Shown, printLine "  ".toList line = List.replicate (2 * line.1) ' ' ++ (intText line.2.1 ++ line.2.field) := by
    intro line
    rw [printLine, ← pair_offset, List.append_assoc]
    rfl
  rw [lines, lines] at same
  obtain ⟨depths, labels⟩ := repeat_apart ' ' _ _ _ _ (begins first.2) (begins second.2) same
  exact Prod.ext (by omega) (label_apart first.2 second.2 labels)

-- The dashes of the offset and of a negative tag stand side by side: their
-- number is odd when the tag is negative.
def signs (n : Int32) : Nat := if n.toInt < 0 then 1 else 0

theorem int_text_signs (n : Int32) : intText n = List.replicate (signs n) '-' ++ Nat.toDigits 10 n.toInt.natAbs := by
  rw [intText, signs]
  split <;> rfl

theorem dash_apart (first second : Line Shown)
    (same : offset "--".toList first.1 ++ intText first.2.1 = offset "--".toList second.1 ++ intText second.2.1) :
    first.1 = second.1 ∧ first.2.1 = second.2.1 := by
  have dashes : ∀ line : Line Shown, offset "--".toList line.1 ++ intText line.2.1 =
      List.replicate (2 * line.1 + signs line.2.1) '-' ++ Nat.toDigits 10 line.2.1.toInt.natAbs := by
    intro line
    rw [int_text_signs, ← List.append_assoc, List.replicate_add, ← pair_offset]
    rfl
  have begins : ∀ n : Nat, (Nat.toDigits 10 n).head? ≠ some '-' := by
    intro n dash
    obtain ⟨c, tail, shape, digit⟩ := decimal_head n
    rw [shape, List.head?_cons] at dash
    exact (digit_ne c digit).1 (Option.some.inj dash)
  rw [dashes, dashes] at same
  obtain ⟨counts, digits⟩ := repeat_apart '-' _ _ _ _ (begins _) (begins _) same
  have signed : ∀ n : Int32, signs n < 2 := by
    intro n
    rw [signs]
    split <;> decide
  have one := signed first.2.1
  have two := signed second.2.1
  have sign : signs first.2.1 = signs second.2.1 := by omega
  have numbers : intText first.2.1 = intText second.2.1 := by rw [int_text_signs, int_text_signs, sign, digits]
  exact ⟨by omega, int_text_injective _ _ numbers⟩

theorem ostream_line_apart (first second : Line Shown) (same : printLine "--".toList first = printLine "--".toList second) :
    first = second := by
  have numerals : ∀ line : Line Shown, ∀ c ∈ offset "--".toList line.1 ++ intText line.2.1, Numeral c = true := by
    intro line c member
    cases List.mem_append.mp member with
    | inl dash =>
        have shape : offset "--".toList line.1 = List.replicate (2 * line.1) '-' := pair_offset '-' line.1
        rw [shape] at dash
        rw [List.eq_of_mem_replicate dash]
        rfl
    | inr number => exact int_text_numeral line.2.1 c number
  obtain ⟨fronts, fields⟩ := span_apart Numeral _ _ _ _ (numerals first) (numerals second) (field_head first.2)
    (field_head second.2) same
  obtain ⟨depths, tags⟩ := dash_apart first second fronts
  exact Prod.ext depths (Prod.ext tags (field_injective first.2 second.2 fields))

theorem debug_line_apart (first second : Line Shown) (same : debugLine first = debugLine second) : first = second := by
  obtain ⟨level, tag, value⟩ := first
  obtain ⟨level', tag', value'⟩ := second
  simp only [debugLine, List.append_assoc, List.cons_append, List.nil_append] at same
  have bracket : ∀ tail : Text, ∀ c, ('[' :: tail).head? = some c → Numeral c = false := by
    intro tail c first
    rw [← Option.some.inj first]
    rfl
  have closing : ∀ tail : Text, ∀ c, (']' :: tail).head? = some c → c.isDigit = false := by
    intro tail c first
    rw [← Option.some.inj first]
    rfl
  obtain ⟨tags, behind⟩ := span_apart Numeral _ _ _ _ (int_text_numeral tag) (int_text_numeral tag') (bracket _) (bracket _) same
  obtain ⟨levels, values⟩ := span_apart Char.isDigit _ _ _ _ (decimal_digits level) (decimal_digits level') (closing _) (closing _)
    (List.cons.inj behind).2
  obtain rfl := int_text_injective tag tag' tags
  have numbers := congrArg (Nat.ofDigitChars 10 · 0) levels
  simp only [Nat.ofDigitChars_ten_toDigits] at numbers
  cases value with
  | none =>
      cases value' with
      | none => rw [numbers]
      | some val => exact absurd (List.cons.inj values).2 (List.cons_ne_nil _ _).symm
  | some val =>
      cases value' with
      | none => exact absurd (List.cons.inj values).2 (List.cons_ne_nil _ _)
      | some other => rw [numbers, (List.cons.inj (List.cons.inj values).2).2]

def Shown.Outside (mark : Char) (shown : Shown) : Prop := ∀ val, shown.2 = some val → mark ∉ val

mutual
theorem MsgFix.shown_outside (mark : Char) (rest : Forest Shown) (later : rest.All (Shown.Outside mark)) : ∀ p : MsgFix,
    p.Clean mark → (p.shown rest).All (Shown.Outside mark)
  | .node true inttag val children, clean => by
      cases clean with
      | tag _ _ outside => exact ⟨fun other own => Option.some.inj own ▸ outside, trivial, later⟩
  | .node false inttag val children, clean => by
      cases clean with
      | entry _ _ _ inner => exact ⟨fun other absent => (nomatch absent), shown_of_outside mark children inner, later⟩
theorem shown_of_outside (mark : Char) : ∀ children : List MsgFix, (∀ p ∈ children, p.Clean mark) →
    (shownOf children).All (Shown.Outside mark)
  | [], _ => trivial
  | p :: rest, clean =>
      MsgFix.shown_outside mark (shownOf rest)
        (shown_of_outside mark rest fun other member => clean other (List.mem_cons_of_mem p member)) p (clean p List.mem_cons_self)
end

theorem print_line_outside (step : Text) (noEnd : '\n' ∉ step) (line : Line Shown) (outside : line.2.Outside '\n') :
    '\n' ∉ printLine step line := by
  intro member
  rcases List.mem_append.mp member with front | field
  · cases List.mem_append.mp front with
    | inl blank =>
        obtain ⟨part, inside, ends⟩ := List.mem_flatten.mp blank
        rw [List.eq_of_mem_replicate inside] at ends
        exact noEnd ends
    | inr number => exact absurd (int_text_numeral _ _ number) (by decide)
  · cases value : line.2.2 with
    | none => simp [Shown.field, value] at field
    | some val => exact outside val value (by simpa [Shown.field, value] using field)

theorem debug_line_outside (line : Line Shown) (outside : line.2.Outside ';') : ';' ∉ debugLine line := by
  intro member
  rcases List.mem_append.mp member with front | field
  · simp only [List.mem_append, List.mem_cons, List.not_mem_nil, or_false] at front
    obtain (number | bracket | level) | closing := front
    · exact absurd (int_text_numeral _ _ number) (by decide)
    · exact absurd bracket (by decide)
    · exact absurd (decimal_digits _ _ level) (by decide)
    · exact absurd closing (by decide)
  · cases value : line.2.2 with
    | none => simp [value] at field
    | some val => exact outside val value (by simpa [value] using field)

section Apart

variable (first second : MsgFix)

theorem printed_shown (step : Text) (noEnd : '\n' ∉ step)
    (apart : ∀ one two : Line Shown, printLine step one = printLine step two → one = two)
    (clean : ∀ p ∈ first.children, p.Clean '\n') (clean' : ∀ p ∈ second.children, p.Clean '\n') :
    printLinesOf step [] first.children = printLinesOf step [] second.children ↔ shownOf first.children = shownOf second.children := by
  have lines : ∀ tree : MsgFix, (∀ p ∈ tree.children, p.Clean '\n') → printLinesOf step [] tree.children =
      ((shownOf tree.children).outline 0).flatMap fun shown => printLine step shown ++ ['\n'] :=
    fun tree clean => print_lines_of_shown step 0 tree.children clean
  rw [lines first clean, lines second clean']
  refine ⟨fun same => ?_, fun equal => by rw [equal]⟩
  have told := Outline.written_apart '\n' (printLine step) id (Shown.Outside '\n')
    (fun one two _ _ equal => by rw [apart one two equal]; exact ⟨rfl, rfl⟩) (print_line_outside step noEnd) _ _ 0
    (shown_of_outside '\n' first.children clean) (shown_of_outside '\n' second.children clean') same
  rwa [Forest.map_id, Forest.map_id] at told

theorem debugged_shown (clean : ∀ p ∈ first.children, p.Clean ';') (clean' : ∀ p ∈ second.children, p.Clean ';') :
    msgFixDebuger first = msgFixDebuger second ↔ shownOf first.children = shownOf second.children := by
  rw [msgFixDebuger, msgFixDebuger, debuger_shown, debuger_shown]
  refine ⟨fun same => ?_, fun equal => by rw [equal]⟩
  have told := Outline.written_apart ';' debugLine id (Shown.Outside ';')
    (fun one two _ _ equal => by rw [debug_line_apart one two equal]; exact ⟨rfl, rfl⟩) debug_line_outside _ _ 0
    (shown_of_outside ';' first.children clean) (shown_of_outside ';' second.children clean') same
  rwa [Forest.map_id, Forest.map_id] at told

end Apart

section Made

variable (mark : Char) (rfixtokens : List Text) (groups : Groups Int32) (clean : ∀ token ∈ rfixtokens, mark ∉ token)

include clean in
theorem read_token_outside (pos : Nat) (pair : TagVal) (read : readToken rfixtokens pos = .ok pair) : mark ∉ pair.second := by
  rw [readToken] at read
  cases found : rfixtokens[pos]? with
  | none => simp [found] at read
  | some token =>
      simp only [found, extractTagVal] at read
      obtain ⟨first, _, read⟩ := (Fallible.bind_ok_iff _ _ _).mp read
      have token_clean := clean token (List.mem_of_getElem? found)
      obtain rfl := Except.ok.inj read
      cases rfixtoken : token.findIdx? (· = '=') with
      | none => simpa [rfixtoken] using token_clean
      | some at_ => simpa [rfixtoken] using fun member => token_clean (List.mem_of_mem_drop member)

include clean in
theorem rmake_clean (fuel : Nat) (made : List MsgFix × Nat) (run : msgFixRmake rfixtokens groups fuel [] 0 none = .ok made) :
    ∀ p ∈ made.1, p.Clean mark := by
  have pushed (rMsgFix : List MsgFix) (last : MsgFix) (before : ∀ p ∈ rMsgFix, p.Clean mark) (own : last.Clean mark) :
      ∀ p ∈ rMsgFix ++ [last], p.Clean mark := by
    intro p member
    cases List.mem_append.mp member with
    | inl old => exact before p old
    | inr new => exact List.mem_singleton.mp new ▸ own
  have nothing : ∀ p ∈ ([] : List MsgFix), p.Clean mark := fun p absent => absurd absent List.not_mem_nil
  refine (rmake_keeps rfixtokens groups (fun children _ => ∀ p ∈ children, p.Clean mark) ?_ (fun _ _ _ before => before)
    (fun _ _ _ => nothing) ?_ fuel).1 [] 0 none made nothing run
  · intro rMsgFix inc pair _ read before
    exact pushed rMsgFix _ before (.tag pair.firstAsInt pair.second (read_token_outside mark rfixtokens clean inc pair read))
  · intro pair rMsgFix children _ _ before inner
    exact pushed rMsgFix _ before (.entry pair.firstAsInt pair.second children inner)

end Made

theorem make_clean (mark : Char) (tokenize : Text → Text → List Text) (rmsg : Text) (groups : Groups Int32) (sep : Text)
    (tree : MsgFix) (made : make tokenize rmsg groups sep = .ok tree) (clean : ∀ token ∈ tokenize rmsg sep, mark ∉ token) :
    ∀ p ∈ tree.children, p.Clean mark := by
  obtain ⟨parsed, run, shape⟩ := (Fallible.bind_ok_iff _ _ _).mp made
  obtain rfl := Except.ok.inj shape
  exact rmake_clean mark (tokenize rmsg sep) groups clean _ parsed run

theorem messages_printed (tokenize : Text → Text → List Text) (rmsg rmsg' : Text) (groups groups' : Groups Int32) (sep sep' : Text)
    (tree tree' : MsgFix) (made : make tokenize rmsg groups sep = .ok tree) (made' : make tokenize rmsg' groups' sep' = .ok tree')
    (clean : ∀ token ∈ tokenize rmsg sep, '\n' ∉ token ∧ ';' ∉ token)
    (clean' : ∀ token ∈ tokenize rmsg' sep', '\n' ∉ token ∧ ';' ∉ token) :
    (tree.ostream = tree'.ostream ↔ shownOf tree.children = shownOf tree'.children) ∧
    (msgFixPrinter tree = msgFixPrinter tree' ↔ shownOf tree.children = shownOf tree'.children) ∧
    (msgFixDebuger tree = msgFixDebuger tree' ↔ shownOf tree.children = shownOf tree'.children) := by
  have lines := make_clean '\n' tokenize rmsg groups sep tree made fun token member => (clean token member).1
  have lines' := make_clean '\n' tokenize rmsg' groups' sep' tree' made' fun token member => (clean' token member).1
  have fields := make_clean ';' tokenize rmsg groups sep tree made fun token member => (clean token member).2
  have fields' := make_clean ';' tokenize rmsg' groups' sep' tree' made' fun token member => (clean' token member).2
  have ostream := printed_shown tree tree' "--".toList (by decide) ostream_line_apart lines lines'
  have printer := printed_shown tree tree' "  ".toList (by decide) printer_line_apart lines lines'
  exact ⟨ostream, printer, debugged_shown tree tree' fields fields'⟩

theorem messages_printed_counter :
    let cut (text sep : Text) : List Text := (text.splitOnP (· ∈ sep)).filter (· ≠ [])
    let rmsg (count : Char) : Text := ['4', '5', '3', '=', count, '|', '4', '4', '8', '=', 'A', '|', '4', '4', '8', '=', 'B']
    let tree (count : Char) : MsgFix :=
      .node false 0 [] [.node false 453 [count] [.node true 448 ['A'] []], .node false 453 [count] [.node true 448 ['B'] []]]
    make cut (rmsg '2') getFix42RepeatingGroups ['|'] = .ok (tree '2') ∧
    ((tree '2').ostream = (tree '7').ostream ↔ shownOf (tree '2').children = shownOf (tree '7').children) ∧
    (msgFixPrinter (tree '2') = msgFixPrinter (tree '7') ↔ shownOf (tree '2').children = shownOf (tree '7').children) ∧
    (msgFixDebuger (tree '2') = msgFixDebuger (tree '7') ↔ shownOf (tree '2').children = shownOf (tree '7').children) := by
  intro cut rmsg tree
  exact ⟨rfl, messages_printed cut (rmsg '2') (rmsg '7') getFix42RepeatingGroups getFix42RepeatingGroups ['|'] ['|'] (tree '2')
    (tree '7') rfl rfl (by decide) (by decide)⟩

end Libx.Trd

import Libx.Ruv.Model
import Libx.Lib.Search

set_option autoImplicit false

namespace Libx.Viewer

open Search

def letters : Text := "ABCDEFGHIJKLMNOPQRSTUVWXYZabcdefghijklmnopqrstuvwxyz1234567890".toList
def digits : Text := "1234567890".toList

-- std::string::find, rfind and find_first_not_of.
def find (str what : Text) (pos : Nat) : Option Nat := if pos ≤ str.length then findFrom what (str.drop pos) pos else none
def rfind (str what : Text) : Option Nat := rfindFrom what str 0
def findFirstNotOf (str set : Text) (pos : Nat) : Option Nat := findNotFrom set (str.drop pos) pos

-- The outer for and the inner for of pair_tokenizer over the characters left;
-- the callback's arguments (tagPos, valPos, valLen) are collected in order.
mutual
def tokenizeTag (separator : Char) : Text → Nat → Nat → List (Nat × Nat × Nat)
  | [], _, _ => []
  | c :: rest, i, tagPos =>
      if c = '=' then tokenizeValue separator rest (i + 1) tagPos (i + 1) else tokenizeTag separator rest (i + 1) tagPos
def tokenizeValue (separator : Char) : Text → Nat → Nat → Nat → List (Nat × Nat × Nat)
  | [], _, _, _ => []
  | c :: rest, i, tagPos, valPos =>
      if c = separator then (tagPos, valPos, i - valPos) :: tokenizeTag separator rest (i + 1) (i + 1)
      else tokenizeValue separator rest (i + 1) tagPos valPos
end

-- The text is the buffer of a std::string, so the character behind its last one is 0.
def pairTokenizer (str : Text) (len : Nat) (separator : Char) : List (Nat × Nat × Nat) :=
  tokenizeTag separator ((str ++ ['\x00']).take len) 0 0

-- separator_ and pos35_, if the source returns true.
def getFixSeparator (str : Text) : Option (Char × Nat) :=
  match find str "35=".toList 0 with
  | none => none
  | some pos35 =>
      match findFirstNotOf str letters (pos35 + 3) with
      | none => none
      | some pos =>
          let separator := str.getD pos '\x00'
          if 1 < pos35 ∧ str.getD (pos35 - 1) '\x00' ≠ separator then none else some (separator, pos35)

def startBefore (pos35 : Nat) (start : Option Nat) : Option Nat := start.filter (· < pos35)

-- start_ and stop_, if the source returns true.
def getFixMessage (str : Text) (separator : Char) (pos35 : Nat) : Option (Nat × Nat) :=
  match rfind str (separator :: "10=".toList) with
  | none => none
  | some found =>
      let stop := (findFirstNotOf str digits (found + 4)).getD (found + 4)
      let start := ((startBefore pos35 (find str "8=".toList 0)).or (startBefore pos35 (find str "9=".toList 0))).getD pos35
      some (start, stop)

def slice (pstr : Text) (pos len : Nat) : Text := (pstr.drop pos).take len

-- The result and fixpairs_; none where stop - start + 1 wraps around and the
-- tokenizer runs out of the buffer.
def getFixPairs (fixpairs : List TagVal) (str : Text) : Option (Bool × List TagVal) :=
  match getFixSeparator str with
  | none => some (false, fixpairs)
  | some (separator, pos35) =>
      match getFixMessage str separator pos35 with
      | none => some (false, fixpairs)
      | some (start, stop) =>
          if stop + 1 < start then none
          else
            let pstr := str.drop start
            let found := pairTokenizer pstr (stop + 1 - start) separator
            some (true, fixpairs ++ found.map fun (tagPos, valPos, valLen) =>
              (slice pstr tagPos (valPos - tagPos - 1), slice pstr valPos valLen))

def renderField (field : TagVal) : Text := field.1 ++ '=' :: field.2
def renderPairs (separator : Char) (fields : List TagVal) : Text := fields.flatMap fun field => renderField field ++ [separator]

def Clean (separator : Char) (field : TagVal) : Prop :=
  '=' ∉ field.1 ∧ separator ∉ field.1 ∧ separator ∉ field.2

instance (separator : Char) (field : TagVal) : Decidable (Clean separator field) := inferInstanceAs (Decidable (_ ∧ _ ∧ _))

theorem tokenize_value (separator : Char) (value rest : Text) (i tagPos valPos : Nat) (clean : separator ∉ value) :
    tokenizeValue separator (value ++ separator :: rest) i tagPos valPos =
      (tagPos, valPos, i + value.length - valPos) :: tokenizeTag separator rest (i + value.length + 1) (i + value.length + 1) := by
  induction value generalizing i with
  | nil => simp [tokenizeValue]
  | cons c value ih =>
      simp only [List.mem_cons, not_or] at clean
      rw [List.cons_append, tokenizeValue, if_neg (Ne.symm clean.1), ih (i + 1) clean.2, List.length_cons]
      simp only [Nat.add_comm, Nat.add_left_comm]

theorem tokenize_tag (separator : Char) (tag rest : Text) (i tagPos : Nat) (clean : '=' ∉ tag) :
    tokenizeTag separator (tag ++ '=' :: rest) i tagPos =
      tokenizeValue separator rest (i + tag.length + 1) tagPos (i + tag.length + 1) := by
  induction tag generalizing i with
  | nil => simp [tokenizeTag]
  | cons c tag ih =>
      simp only [List.mem_cons, not_or] at clean
      rw [List.cons_append, tokenizeTag, if_neg (Ne.symm clean.1), ih (i + 1) clean.2, List.length_cons]
      simp only [Nat.add_comm, Nat.add_left_comm]

theorem slice_middle (front middle whole : Text) (covers : front ++ middle <+: whole) :
    slice whole front.length middle.length = middle := by
  obtain ⟨back, rfl⟩ := covers
  simp [slice]

def Unterminated (separator : Char) (tail : Text) : Prop :=
  '=' ∉ tail ∨ ∃ tag value, tail = tag ++ '=' :: value ∧ '=' ∉ tag ∧ separator ∉ value

theorem tokenize_tag_open (separator : Char) (tag : Text) (i tagPos : Nat) (clean : '=' ∉ tag) :
    tokenizeTag separator tag i tagPos = [] := by
  induction tag generalizing i with
  | nil => rw [tokenizeTag]
  | cons c tag ih =>
      simp only [List.mem_cons, not_or] at clean
      rw [tokenizeTag, if_neg (Ne.symm clean.1), ih (i + 1) clean.2]

theorem tokenize_value_open (separator : Char) (value : Text) (i tagPos valPos : Nat) (clean : separator ∉ value) :
    tokenizeValue separator value i tagPos valPos = [] := by
  induction value generalizing i with
  | nil => rw [tokenizeValue]
  | cons c value ih =>
      simp only [List.mem_cons, not_or] at clean
      rw [tokenizeValue, if_neg (Ne.symm clean.1), ih (i + 1) clean.2]

theorem tokenize_unterminated (separator : Char) (tail : Text) (i tagPos : Nat) (unterminated : Unterminated separator tail) :
    tokenizeTag separator tail i tagPos = [] := by
  cases unterminated with
  | inl clean => exact tokenize_tag_open separator tail i tagPos clean
  | inr opened =>
      obtain ⟨tag, value, rfl, tagClean, valueClean⟩ := opened
      rw [tokenize_tag separator tag value i tagPos tagClean]
      exact tokenize_value_open separator value _ _ _ valueClean

theorem render_cons (separator : Char) (field : TagVal) (fields : List TagVal) :
    renderPairs separator (field :: fields) = renderField field ++ separator :: renderPairs separator fields := by
  simp [renderPairs]

-- The first field ends in front of its separator, so it is covered even when the last character is left out.
theorem field_covered (separator last : Char) (front whole tag value : Text) (fields : List TagVal)
    (covers : front ++ renderPairs separator ((tag, value) :: fields) <+: whole ++ [last]) :
    front ++ (tag ++ '=' :: value) <+: whole := by
  obtain ⟨back, split⟩ := covers
  rw [render_cons, renderField] at split
  have seen : front ++ (tag ++ '=' :: value) <+: whole ++ [last] :=
    ⟨separator :: (renderPairs separator fields ++ back), by rw [← split]; simp⟩
  apply List.prefix_of_prefix_length_le seen (List.prefix_append whole [last])
  have lengths := congrArg List.length split
  simp only [List.length_append, List.length_cons, List.length_nil] at lengths ⊢
  omega

theorem tokenize_fields (separator last : Char) (front whole tail : Text) (fields : List TagVal)
    (covers : front ++ renderPairs separator fields <+: whole ++ [last])
    (clean : ∀ field ∈ fields, '=' ∉ field.1 ∧ separator ∉ field.2) (unterminated : Unterminated separator tail) :
    (tokenizeTag separator (renderPairs separator fields ++ tail) front.length front.length).map
        (fun (tagPos, valPos, valLen) => (slice whole tagPos (valPos - tagPos - 1), slice whole valPos valLen)) = fields := by
  induction fields generalizing front with
  | nil =>
      rw [show renderPairs separator [] ++ tail = tail from rfl, tokenize_unterminated separator tail _ _ unterminated]
      rfl
  | cons field fields ih =>
      obtain ⟨tag, value⟩ := field
      obtain ⟨tagClean, valueClean⟩ := clean (tag, value) (by simp)
      have rest := ih (front ++ (renderField (tag, value) ++ [separator])) (by simpa [render_cons] using covers)
        fun other member => clean other (by simp [member])
      have inside := field_covered separator last front whole tag value fields covers
      have tagSlice := slice_middle front tag whole (List.IsPrefix.trans ⟨'=' :: value, by simp⟩ inside)
      have valueSlice := slice_middle (front ++ (tag ++ ['='])) value whole (by simpa using inside)
      have ends : (front ++ (renderField (tag, value) ++ [separator])).length =
          front.length + tag.length + 1 + value.length + 1 := by
        simp only [renderField, List.length_append, List.length_cons, List.length_nil]
        omega
      rw [ends] at rest
      rw [render_cons, renderField, List.append_assoc, List.append_assoc, List.cons_append, List.cons_append,
        tokenize_tag separator tag _ _ _ tagClean, tokenize_value separator value _ _ _ _ valueClean, List.map_cons]
      have between : front.length + tag.length + 1 - front.length - 1 = tag.length := by omega
      rw [rest]
      simp only [between, tagSlice, Nat.add_sub_cancel_left]
      rw [List.length_append, List.length_append, List.length_singleton, ← Nat.add_assoc] at valueSlice
      rw [valueSlice]

theorem render_append (separator : Char) (fields more : List TagVal) :
    renderPairs separator (fields ++ more) = renderPairs separator fields ++ renderPairs separator more := by
  simp [renderPairs]

theorem render_ends (separator : Char) (field : TagVal) (fields : List TagVal) :
    ∃ front, renderPairs separator (field :: fields) = front ++ [separator] := by
  obtain ⟨fields, last, split⟩ : ∃ others last, field :: fields = others ++ [last] :=
    ⟨_, _, (List.dropLast_append_getLast (List.cons_ne_nil field fields)).symm⟩
  exact ⟨renderPairs separator fields ++ renderField last, by simp [split, renderPairs]⟩

theorem find_start (front what rest : Text) (absent : Absent what front (what ++ rest)) :
    find (front ++ (what ++ rest)) what 0 = some front.length := by
  rw [find, if_pos (Nat.zero_le _), List.drop_zero, find_absent what front _ 0 absent,
    find_here what _ _ (List.prefix_append what rest), Nat.zero_add]

theorem find_not_behind (front middle rest : Text) (c : Char) (set : Text) (inside : ∀ d ∈ middle, d ∈ set) (outside : c ∉ set) :
    findFirstNotOf (front ++ (middle ++ c :: rest)) set front.length = some (front.length + middle.length) := by
  rw [findFirstNotOf, List.drop_left, find_not_past set middle _ _ inside, find_not_here set rest c _ outside]

theorem get_middle (front rest : Text) (c : Char) (i : Nat) (here : i = front.length) :
    (front ++ c :: rest).getD i '\x00' = c := by
  simp [here]

theorem all_inside (set text : Text) (checked : text.all (· ∈ set) = true) : ∀ c ∈ text, c ∈ set :=
  fun c member => of_decide_eq_true (List.all_eq_true.mp checked c member)

theorem digits_letters : ∀ c ∈ digits, c ∈ letters := all_inside letters digits (by decide)

section Embedded

variable (separator : Char) (foreign : separator ∉ letters) (notEqual : separator ≠ '=')
include foreign

theorem clean_letters (tag value : Text) (tagDigits : ∀ c ∈ tag, c ∈ digits) (valueLetters : ∀ c ∈ value, c ∈ letters) :
    Clean separator (tag, value) := by
  refine ⟨fun member => ?_, fun member => foreign (digits_letters _ (tagDigits _ member)),
    fun member => foreign (valueLetters _ member)⟩
  exact absurd (tagDigits _ member) (by decide)

theorem embedded_clean (version value35 value10 : Text) (early later : List TagVal)
    (clean : ∀ field ∈ ("8".toList, version) :: early ++ later, Clean separator field)
    (plain35 : ∀ c ∈ value35, c ∈ letters) (digits10 : ∀ c ∈ value10, c ∈ digits) :
    ∀ field ∈ ("8".toList, version) :: early ++ ("35".toList, value35) :: later ++ [("10".toList, value10)],
      Clean separator field := by
  intro field member
  simp only [List.mem_append, List.mem_cons, List.not_mem_nil, or_false, or_assoc] at member clean
  rcases member with first | second | rfl | third | rfl
  · exact clean field (.inl first)
  · exact clean field (.inr (.inl second))
  · exact clean_letters separator foreign _ _ (all_inside digits _ (by decide)) plain35
  · exact clean field (.inr (.inr third))
  · exact clean_letters separator foreign _ _ (all_inside digits _ (by decide)) fun c member =>
      digits_letters c (digits10 c member)

theorem separator_found (lead rest value35 : Text) (ends : ∃ front, lead = front ++ [separator])
    (absent : Absent "35=".toList lead ("35=".toList ++ (value35 ++ separator :: rest)))
    (plain35 : ∀ c ∈ value35, c ∈ letters) :
    getFixSeparator (lead ++ ("35=".toList ++ (value35 ++ separator :: rest))) = some (separator, lead.length) := by
  have behind := find_not_behind (lead ++ "35=".toList) value35 rest separator letters plain35 foreign
  have guessed := get_middle (lead ++ ("35=".toList ++ value35)) rest separator (lead.length + 3 + value35.length)
    (by simp; omega)
  obtain ⟨front, rfl⟩ := ends
  have preceding := get_middle front ("35=".toList ++ (value35 ++ separator :: rest)) separator
    ((front ++ [separator]).length - 1) (by simp)
  have shift : (front ++ [separator] ++ "35=".toList).length = (front ++ [separator]).length + 3 := List.length_append
  rw [shift, List.append_assoc _ "35=".toList] at behind
  rw [getFixSeparator, find_start _ "35=".toList _ absent]
  simp only [behind]
  simp only [List.append_assoc, List.cons_append, List.nil_append] at guessed preceding ⊢
  rw [guessed, preceding]
  simp

include notEqual

theorem fields_absent (fields : List TagVal) (rest : Text)
    (unlike : ∀ field ∈ fields, ¬ "35=".toList <:+: renderField field) :
    Absent "35=".toList (renderPairs separator fields) rest := by
  have notThree : separator ≠ '3' := fun same => foreign (same ▸ digits_letters '3' (by decide))
  have notFive : separator ≠ '5' := fun same => foreign (same ▸ digits_letters '5' (by decide))
  induction fields with
  | nil => trivial
  | cons field fields ih =>
      have tail := ih fun other member => unlike other (by simp [member])
      rw [show renderPairs separator (field :: fields) = renderField field ++ ([separator] ++ renderPairs separator fields) by
        simp [renderPairs]]
      refine absent_append _ _ _ _ ?_ (absent_append _ _ _ _ (absent_head '3' "5=".toList _ _ (by simpa using notThree)) tail)
      exact absent_text _ _ _ separator (unlike field (by simp)) (by simp [notFive, notEqual])

theorem message_found (before opening lead value10 after : Text) (pos35 : Nat)
    (start8 : before ++ ("8=".toList ++ opening) = lead ++ separator :: ("10=".toList ++ (value10 ++ separator :: after)))
    (absent8 : Absent "8=".toList before ("8=".toList ++ opening)) (later35 : before.length < pos35)
    (digits10 : ∀ c ∈ value10, c ∈ digits) (last10 : ¬ separator :: "10=".toList <:+: separator :: after) :
    getFixMessage (before ++ ("8=".toList ++ opening)) separator pos35 =
      some (before.length, lead.length + 4 + value10.length) := by
  have apart : ∀ c ∈ "10=".toList ++ value10, c ≠ separator := by
    intro c member same
    rcases List.mem_append.mp member with opener | digit
    · have known : c = '1' ∨ c = '0' ∨ c = '=' := by simpa using opener
      rcases known with rfl | rfl | rfl
      · exact foreign (same ▸ digits_letters '1' (by decide))
      · exact foreign (same ▸ digits_letters '0' (by decide))
      · exact notEqual same.symm
    · exact foreign (same ▸ digits_letters c (digits10 c digit))
  have found : rfind (before ++ ("8=".toList ++ opening)) (separator :: "10=".toList) = some lead.length := by
    rw [rfind, start8, rfind_last (separator :: "10=".toList) lead _ separator 0 (by simp), Nat.zero_add]
    intro inside
    rw [← List.append_assoc] at inside
    exact last10 (infix_past separator "10=".toList _ _ apart inside)
  have stop := find_not_behind (lead ++ separator :: "10=".toList) value10 after separator digits digits10
    fun member => foreign (digits_letters separator member)
  have shift : (lead ++ separator :: "10=".toList).length = lead.length + 4 := List.length_append
  rw [shift, List.append_assoc, List.cons_append, ← start8] at stop
  simp only [getFixMessage, found, stop, find_start before "8=".toList opening absent8, startBefore, Option.filter_some,
    decide_eq_true later35, if_true, Option.some_or, Option.getD_some]

end Embedded

theorem message_cuts (separator : Char) (version value35 value10 after : Text) (early later : List TagVal) :
    let fields := ("8".toList, version) :: early ++ ("35".toList, value35) :: later ++ [("10".toList, value10)]
    ∃ opening front35 front10,
      renderPairs separator fields ++ after = "8=".toList ++ opening ∧
      renderPairs separator (("8".toList, version) :: early) = front35 ++ [separator] ∧
      renderPairs separator fields ++ after = (front35 ++ [separator]) ++ ("35=".toList ++ (value35 ++ separator ::
        (renderPairs separator (later ++ [("10".toList, value10)]) ++ after))) ∧
      renderPairs separator fields ++ after = front10 ++ separator :: ("10=".toList ++ (value10 ++ separator :: after)) := by
  intro fields
  obtain ⟨front35, ends35⟩ := render_ends separator ("8".toList, version) early
  obtain ⟨front10, ends10⟩ := render_ends separator ("8".toList, version) (early ++ ("35".toList, value35) :: later)
  refine ⟨version ++ separator :: (renderPairs separator (early ++ ("35".toList, value35) :: later ++
    [("10".toList, value10)]) ++ after), front35, front10, ?_, ends35, ?_, ?_⟩
  · simp [fields, render_cons, renderField]
  · rw [← ends35]
    simp [fields, render_cons, render_append, renderField]
  · have whole : fields = (("8".toList, version) :: (early ++ ("35".toList, value35) :: later)) ++ [("10".toList, value10)] := by
      simp [fields]
    rw [whole, render_append, ends10]
    simp [renderField, renderPairs]

theorem pair_tokenizer_fields (separator : Char) (after : Text) (fields : List TagVal)
    (clean : ∀ field ∈ fields, '=' ∉ field.1 ∧ separator ∉ field.2) :
    (pairTokenizer (renderPairs separator fields ++ after) (renderPairs separator fields).length separator).map
        (fun (tagPos, valPos, valLen) =>
          (slice (renderPairs separator fields ++ after) tagPos (valPos - tagPos - 1),
            slice (renderPairs separator fields ++ after) valPos valLen)) = fields := by
  have cutFields := tokenize_fields separator '\x00' [] (renderPairs separator fields ++ after) [] fields (by simp) clean (.inl (by simp))
  rw [List.append_nil, List.length_nil] at cutFields
  rw [pairTokenizer, List.append_assoc, List.take_left]
  exact cutFields

theorem get_fix_pairs_embedded (separator : Char) (foreign : separator ∉ letters) (notEqual : separator ≠ '=')
    (before after version value35 value10 : Text) (early later fixpairs : List TagVal)
    (before8 : ¬ "8=".toList <:+: before) (before35 : ¬ "35=".toList <:+: before)
    (clean : ∀ field ∈ ("8".toList, version) :: early ++ later, Clean separator field)
    (unlike : ∀ field ∈ ("8".toList, version) :: early, ¬ "35=".toList <:+: renderField field)
    (plain35 : ∀ c ∈ value35, c ∈ letters) (digits10 : ∀ c ∈ value10, c ∈ digits)
    (last10 : ¬ separator :: "10=".toList <:+: separator :: after) :
    let fields := ("8".toList, version) :: early ++ ("35".toList, value35) :: later ++ [("10".toList, value10)]
    getFixPairs fixpairs (before ++ renderPairs separator fields ++ after) = some (true, fixpairs ++ fields) := by
  intro fields
  obtain ⟨opening, front35, front10, cut8, ends35, cut35, cut10⟩ :=
    message_cuts separator version value35 value10 after early later
  let rest35 := renderPairs separator (later ++ [("10".toList, value10)]) ++ after
  have line8 : before ++ renderPairs separator fields ++ after = before ++ ("8=".toList ++ opening) := by
    rw [List.append_assoc, cut8]
  have line35 : before ++ ("8=".toList ++ opening) = (before ++ (front35 ++ [separator])) ++
      ("35=".toList ++ (value35 ++ separator :: rest35)) := by
    rw [← cut8, cut35, ← List.append_assoc]
  have line10 : before ++ ("8=".toList ++ opening) = (before ++ front10) ++ separator ::
      ("10=".toList ++ (value10 ++ separator :: after)) := by
    rw [← cut8, cut10, ← List.append_assoc]
  have absent8 : Absent "8=".toList before ("8=".toList ++ opening) := absent_text _ _ _ '8' before8 (by decide)
  have absent35 : Absent "35=".toList (before ++ (front35 ++ [separator])) ("35=".toList ++ (value35 ++ separator :: rest35)) := by
    rw [← ends35]
    refine absent_append _ _ _ _ ?_ (fields_absent separator foreign notEqual _ _ unlike)
    rw [render_cons]
    exact absent_text _ _ _ '8' before35 (by decide)
  have separatorFound := separator_found separator foreign _ rest35 value35 ⟨before ++ front35, by simp⟩ absent35 plain35
  have messageFound := message_found separator foreign notEqual before opening (before ++ front10) value10 after
    (before ++ (front35 ++ [separator])).length line10 absent8 (by simp) digits10 last10
  rw [← line35] at separatorFound
  have size : (renderPairs separator fields).length = front10.length + 1 + 4 + value10.length := by
    have lengths := congrArg List.length (line8.trans line10)
    simp only [List.length_append, List.length_cons] at lengths
    have tenth : ("10=".toList).length = 3 := rfl
    omega
  have cut : (before ++ ("8=".toList ++ opening)).drop before.length = renderPairs separator fields ++ after := by
    rw [← line8, List.append_assoc, List.drop_left]
  have allClean := embedded_clean separator foreign version value35 value10 early later clean plain35 digits10
  have cutFields := pair_tokenizer_fields separator after fields fun field member =>
    ⟨(allClean field member).1, (allClean field member).2.2⟩
  rw [line8, getFixPairs, separatorFound]
  simp only [messageFound]
  rw [if_neg (by simp only [List.length_append]; omega), cut,
    show (before ++ front10).length + 4 + value10.length + 1 - before.length = (renderPairs separator fields).length by
      simp only [List.length_append]; omega, cutFields]

theorem get_fix_pairs_log_line :
    let fields := [("8".toList, "FIX".toList), ("35".toList, "D".toList), ("58".toList, "a=b".toList), ("10".toList, "007".toList)]
    getFixPairs [] ("sent: ".toList ++ renderPairs '|' fields ++ "|ok".toList) = some (true, fields) := by
  refine get_fix_pairs_embedded '|' (by decide) (by decide) "sent: ".toList "|ok".toList "FIX".toList "D".toList "007".toList []
    [("58".toList, "a=b".toList)] [] ?_ ?_ ?_ ?_ (all_inside letters _ (by decide)) (all_inside digits _ (by decide)) ?_
  · decide
  · decide
  · decide
  · decide
  · decide

end Libx.Viewer

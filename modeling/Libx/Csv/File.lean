import Mathlib.Data.List.TakeWhile
import Libx.Csv.Tokens

set_option autoImplicit false

namespace Libx.Csv

def lineSize : Nat := 1 <<< 14

structure Istream where
  rest : Text
  eofbit : Bool
  failbit : Bool
deriving DecidableEq, Repr

-- What getline meets first, in the order in which it looks.
inductive Stop where
  | endOfFile
  | delimiter
  | full
deriving DecidableEq, Repr

def extractLine : Nat → Text → Text × Stop × Text
  | _, [] => ([], .endOfFile, [])
  | room, c :: rest =>
      if c = '\n' then ([], .delimiter, rest)
      else if room = 0 then ([], .full, c :: rest)
      else
        let later := extractLine (room - 1) rest
        (c :: later.1, later.2)

-- std::istream::getline( s, n ): what is in s in front of the 0 it puts there, and the stream.
def getline (n : Nat) (istr : Istream) : Text × Istream :=
  if istr.eofbit || istr.failbit then ([], { istr with failbit := true })
  else
    match extractLine (n - 1) istr.rest with
    | (stored, stop, rest) =>
        (stored, ⟨rest, stop = .endOfFile, stop = .full ∨ stored = [] ∧ stop ≠ .delimiter⟩)

theorem extract_line_shorter (room : Nat) (text : Text) :
    (extractLine room text).2.2.length + (extractLine room text).1.length ≤ text.length ∧
      ((extractLine room text).2.1 = .delimiter → (extractLine room text).2.2.length < text.length) := by
  induction text generalizing room with
  | nil => simp [extractLine]
  | cons c rest ih =>
      obtain ⟨shorter, delimited⟩ := ih (room - 1)
      rw [extractLine]
      by_cases ends : c = '\n'
      · simp [ends]
      · by_cases full : room = 0
        · simp [ends, full]
        · simp only [ends, full, if_false, List.length_cons]
          exact ⟨Nat.succ_le_succ shorter, fun stopped => Nat.lt_succ_of_lt (delimited stopped)⟩

theorem getline_shorter (n : Nat) (istr : Istream) (read : (getline n istr).2.failbit = false) :
    (getline n istr).2.rest.length < istr.rest.length := by
  obtain ⟨shorter, delimited⟩ := extract_line_shorter (n - 1) istr.rest
  by_cases bad : (istr.eofbit || istr.failbit) = true
  · simp [getline, bad] at read
  · simp only [getline, bad, Bool.false_eq_true, if_false] at read ⊢
    cases stored : (extractLine (n - 1) istr.rest).1 with
    | nil =>
        simp only [stored, decide_eq_false_iff_not, not_or, true_and, not_not] at read
        exact delimited read.2
    | cons c rest =>
        rw [stored, List.length_cons] at shorter
        exact Nat.lt_of_lt_of_le (Nat.lt_add_of_pos_right (Nat.succ_pos _)) shorter

-- The loop of both overloads; `body` is what they do with the tokens of a line. tokens is clear in front of every line.
def parseLines {σ β : Type} (body : List Text → Text → σ → β × σ) (delim : Char) (state : σ) (istr : Istream) : List β :=
  if _failed : (getline lineSize istr).2.failbit = true then []
  else
    let line := cString (getline lineSize istr).1
    let tokenized := tokenizeCsv line delim
    if tokenized.2 = 0 then []
    else
      let called := body tokenized.1 line state
      called.1 :: parseLines body delim called.2 (getline lineSize istr).2
termination_by istr.rest.length
decreasing_by exact getline_shorter lineSize istr (eq_false_of_ne_true _failed)

-- parse_csv_file with convert; the calls of f. msg_data lives as long as the loop.
def parseCsvFileWith {M : Type} (convert : List Text → M → M) (msgData : M) (istr : Istream) : List M :=
  parseLines (fun tokens _ msgData => (convert tokens msgData, convert tokens msgData)) ',' msgData istr

-- parse_csv_file without convert; the calls of t.
def parseCsvFile (istr : Istream) (delim : Char) : List (List Text × Text) :=
  parseLines (fun tokens line _ => ((tokens, line), ())) delim () istr

structure Line where
  text : Text
  some_ : text ≠ []
  clean : '\x00' ∉ text
  unbroken : '\n' ∉ text

def Line.Fits (line : Line) : Prop := line.text.length < lineSize

instance (line : Line) : Decidable line.Fits := inferInstanceAs (Decidable (_ < _))

def streamText : List Line → Bool → Text
  | [], _ => []
  | line :: rest, ended => line.text ++ if rest.isEmpty && !ended then [] else '\n' :: streamText rest ended

def opened (text : Text) : Istream := ⟨text, false, false⟩

def inTurn {σ β : Type} (body : List Text → Text → σ → β × σ) (delim : Char) : σ → List Line → List β
  | _, [] => []
  | state, line :: rest =>
      let called := body (tokenizeCsv line.text delim).1 line.text state
      called.1 :: inTurn body delim called.2 rest

theorem in_turn_length {σ β : Type} (body : List Text → Text → σ → β × σ) (delim : Char) (state : σ) (lines : List Line) :
    (inTurn body delim state lines).length = lines.length := by
  induction lines generalizing state with
  | nil => rfl
  | cons line rest ih => rw [inTurn, List.length_cons, ih, List.length_cons]

theorem extract_line_past (room : Nat) (text rest : Text) (unbroken : '\n' ∉ text) (fits : text.length ≤ room) :
    extractLine room (text ++ rest) =
      (text ++ (extractLine (room - text.length) rest).1, (extractLine (room - text.length) rest).2) := by
  induction text generalizing room with
  | nil => rfl
  | cons c text ih =>
      obtain ⟨other, unbroken⟩ := not_or.mp (mt List.mem_cons.mpr unbroken)
      have space : room ≠ 0 := Nat.ne_of_gt (Nat.lt_of_lt_of_le (Nat.succ_pos _) fits)
      have left : room - (c :: text).length = room - 1 - text.length := by
        rw [List.length_cons]
        omega
      rw [List.cons_append, extractLine, if_neg (Ne.symm other), if_neg space, ih (room - 1) unbroken (Nat.le_sub_one_of_lt fits),
        left]
      rfl

theorem extract_line_delimited (room : Nat) (text rest : Text) (unbroken : '\n' ∉ text) (fits : text.length ≤ room) :
    extractLine room (text ++ '\n' :: rest) = (text, .delimiter, rest) := by
  simp [extract_line_past room text _ unbroken fits, extractLine]

theorem extract_line_ended (room : Nat) (text : Text) (unbroken : '\n' ∉ text) (fits : text.length ≤ room) :
    extractLine room text = (text, .endOfFile, []) := by
  have whole := extract_line_past room text [] unbroken fits
  simpa [extractLine] using whole

theorem extract_line_full (room : Nat) (text rest : Text) (unbroken : '\n' ∉ text) (long : room < text.length) :
    (extractLine room (text ++ rest)).2.1 = .full := by
  have split : text ++ rest = text.take room ++ (text[room] :: (text.drop (room + 1) ++ rest)) := by
    rw [← List.cons_append, ← List.drop_eq_getElem_cons long, ← List.append_assoc, List.take_append_drop]
  have other : text[room] ≠ '\n' := fun same => unbroken (same ▸ List.getElem_mem long)
  have taken : room - (text.take room).length = 0 := by
    rw [List.length_take]
    omega
  rw [split, extract_line_past room _ _ (fun member => unbroken (List.mem_of_mem_take member)) (List.length_take_le _ _), taken]
  simp [extractLine, other]

theorem getline_delimited (text rest : Text) (unbroken : '\n' ∉ text) (fits : text.length < lineSize) :
    getline lineSize (opened (text ++ '\n' :: rest)) = (text, opened rest) := by
  have line := extract_line_delimited (lineSize - 1) text rest unbroken (Nat.le_sub_one_of_lt fits)
  simp [getline, opened, line]

theorem getline_ended (text : Text) (some_ : text ≠ []) (unbroken : '\n' ∉ text) (fits : text.length < lineSize) :
    getline lineSize (opened text) = (text, ⟨[], true, false⟩) := by
  have line := extract_line_ended (lineSize - 1) text unbroken (Nat.le_sub_one_of_lt fits)
  simp [getline, opened, line, some_]

theorem getline_full (text rest : Text) (unbroken : '\n' ∉ text) (long : ¬ text.length < lineSize) :
    (getline lineSize (opened (text ++ rest))).2.failbit = true := by
  have room : lineSize - 1 < text.length := Nat.lt_of_lt_of_le (by decide) (Nat.le_of_not_lt long)
  have stopped := extract_line_full (lineSize - 1) text rest unbroken room
  simp [getline, opened, stopped]

theorem tokenize_csv_some (line : Text) (delim : Char) (some_ : line ≠ []) (fits : line.length < lineSize) :
    (tokenizeCsv line delim).2 ≠ 0 := by
  obtain ⟨number, positive, bounded⟩ := tokenize_from_number delim line 0
  have small : (tokenizeFrom delim line 0).1.length < 2 ^ 32 :=
    Nat.lt_of_le_of_lt bounded (Nat.lt_of_le_of_lt fits (by decide))
  rw [tokenizeCsv, if_neg some_, number, UInt32.zero_add]
  intro none_
  have same := congrArg UInt32.toNat none_
  rw [UInt32.toNat_ofNat_of_lt' small] at same
  exact absurd same (Nat.ne_of_gt positive)

section Loop

variable {σ β : Type} (body : List Text → Text → σ → β × σ) (delim : Char) (state : σ)

theorem parse_lines_failed (istr : Istream) (failed : (getline lineSize istr).2.failbit = true) :
    parseLines body delim state istr = [] := by
  rw [parseLines, dif_pos failed]

theorem parse_lines_next (istr next : Istream) (line : Line) (read : getline lineSize istr = (line.text, next))
    (good : next.failbit = false) (fits : line.Fits) :
    parseLines body delim state istr =
      (body (tokenizeCsv line.text delim).1 line.text state).1 ::
        parseLines body delim (body (tokenizeCsv line.text delim).1 line.text state).2 next := by
  have whole := c_string_whole line.text line.clean
  have tokens := tokenize_csv_some line.text delim line.some_ fits
  rw [parseLines, dif_neg (by simp [read, good])]
  simp only [read, whole, tokens, if_false]

theorem parse_lines_while_fitting (lines : List Line) (ended : Bool) :
    parseLines body delim state (opened (streamText lines ended)) =
      inTurn body delim state (lines.takeWhile fun line => line.Fits) := by
  induction lines generalizing state with
  | nil => exact parse_lines_failed body delim state _ rfl
  | cons line rest ih =>
      by_cases fits : line.Fits
      · rw [List.takeWhile_cons, decide_eq_true fits, if_pos rfl, inTurn, streamText]
        by_cases last : (rest.isEmpty && !ended) = true
        · have noMore : rest = [] := List.isEmpty_iff.mp (Bool.and_eq_true_iff.mp last).1
          rw [if_pos last, List.append_nil, parse_lines_next body delim state _ _ line
            (getline_ended line.text line.some_ line.unbroken fits) rfl fits, parse_lines_failed body delim _ _ rfl, noMore]
          rfl
        · rw [if_neg last, parse_lines_next body delim state _ _ line
            (getline_delimited line.text _ line.unbroken fits) rfl fits, ih]
      · rw [List.takeWhile_cons, decide_eq_false fits, if_neg Bool.false_ne_true, streamText]
        exact parse_lines_failed body delim state _ (getline_full line.text _ line.unbroken fits)

theorem parse_lines_all_iff (lines : List Line) (ended : Bool) :
    parseLines body delim state (opened (streamText lines ended)) = inTurn body delim state lines ↔
      ∀ line ∈ lines, line.Fits := by
  rw [parse_lines_while_fitting]
  constructor
  · intro same
    have lengths := congrArg List.length same
    rw [in_turn_length, in_turn_length] at lengths
    have whole := (List.takeWhile_prefix fun line : Line => decide line.Fits).eq_of_length lengths
    intro line member
    exact of_decide_eq_true (List.takeWhile_eq_self_iff.mp whole line member)
  · intro fitting
    rw [List.takeWhile_eq_self_iff.mpr fun line member => decide_eq_true (fitting line member)]

end Loop

def conversions {M : Type} (convert : List Text → M → M) : M → List Line → List M
  | _, [] => []
  | msgData, line :: rest =>
      let msgData := convert (tokenizeCsv line.text ',').1 msgData
      msgData :: conversions convert msgData rest

theorem in_turn_calls (delim : Char) (lines : List Line) :
    inTurn (fun tokens line (_ : Unit) => ((tokens, line), ())) delim () lines =
      lines.map fun line => ((tokenizeCsv line.text delim).1, line.text) := by
  induction lines with
  | nil => rfl
  | cons line rest ih => rw [inTurn, ih, List.map_cons]

theorem in_turn_conversions {M : Type} (convert : List Text → M → M) (msgData : M) (lines : List Line) :
    inTurn (fun tokens _ msgData => (convert tokens msgData, convert tokens msgData)) ',' msgData lines =
      conversions convert msgData lines := by
  induction lines generalizing msgData with
  | nil => rfl
  | cons line rest ih => rw [inTurn, ih, conversions]

theorem parse_csv_file_iff {M : Type} (convert : List Text → M → M) (msgData : M) (delim : Char) (lines : List Line)
    (ended : Bool) :
    (parseCsvFile (opened (streamText lines ended)) delim =
        lines.map (fun line => ((tokenizeCsv line.text delim).1, line.text)) ↔ ∀ line ∈ lines, line.text.length < lineSize) ∧
      (parseCsvFileWith convert msgData (opened (streamText lines ended)) = conversions convert msgData lines ↔
        ∀ line ∈ lines, line.text.length < lineSize) := by
  constructor
  · rw [← in_turn_calls]
    exact parse_lines_all_iff _ delim () lines ended
  · rw [← in_turn_conversions]
    exact parse_lines_all_iff _ ',' msgData lines ended

def longLine : Line where
  text := List.replicate lineSize 'a'
  some_ := by decide
  clean := fun member => absurd (List.eq_of_mem_replicate member) (by decide)
  unbroken := fun member => absurd (List.eq_of_mem_replicate member) (by decide)

def shortLine : Line := ⟨['b'], by decide, by decide, by decide⟩

theorem parse_csv_file_loses_lines :
    parseCsvFile (opened (streamText [longLine, shortLine] true)) ',' ≠
      [longLine, shortLine].map fun line => ((tokenizeCsv line.text ',').1, line.text) := by
  intro same
  have long : ¬ longLine.Fits := by
    rw [Line.Fits, longLine, List.length_replicate]
    exact Nat.lt_irrefl lineSize
  rw [parseCsvFile, parse_lines_while_fitting, List.takeWhile_cons, decide_eq_false long] at same
  exact absurd same (by simp [inTurn])

end Libx.Csv

import Libx.Sleepy.RoundTrip

set_option autoImplicit false

namespace Libx.Sleepy

-- What data_ points to: the characters of the buffer and, behind length_ of them, whatever is there.
abbrev Memory := Nat → Char

-- The arguments of one call of onTag_; a pointer is a place behind data_, and none is nullptr.
structure TagCall where
  tag : Nat
  tagLen : Int
  val : Option Nat
  valLen : Int
deriving DecidableEq, Repr

-- The calls of onTag_, the places of data_ that are read, and the returned int.
structure Run where
  calls : List TagCall
  reads : List Nat
  rtn : Nat
deriving DecidableEq, Repr

def Run.after (reads : List Nat) (run : Run) : Run := { run with reads := reads ++ run.reads }
def Run.calling (call : TagCall) (run : Run) : Run := { run with calls := call :: run.calls }

-- The inner for: how far behind place i the next comma is, if it comes before length_.
def seekComma (data : Memory) : Nat → Nat → Option Nat × List Nat
  | 0, _ => (none, [])
  | left + 1, i =>
      if data i = ',' then (some 0, [i])
      else
        let later := seekComma data left (i + 1)
        (later.1.map (· + 1), i :: later.2)

-- The outer for from place i on. No int goes past length_ + 1, which is an int
-- for every text of less than 2^31 - 1 characters.
def scan (data : Memory) (length i tagPos : Nat) : Run :=
  if i < length then
    if data i = ' ' then
      let valPos := i + 1
      if data valPos ≠ ',' then
        match seekComma data (length - valPos) valPos with
        | (none, reads) => Run.after (i :: valPos :: reads) ⟨[], [], length⟩
        | (some distance, reads) =>
            let comma := valPos + distance
            let valLen : Int := if data (comma - 1) = ' ' then comma - valPos - 1 else comma - valPos
            Run.after (i :: valPos :: (reads ++ [comma - 1])) (Run.calling ⟨tagPos, valPos - tagPos - 1, some valPos, valLen⟩
              (Run.after [comma + 1] (if data (comma + 1) = ';' then ⟨[], [], comma + 2⟩ else scan data length (comma + 1) (comma + 1))))
      else
        Run.after [i, valPos] (Run.calling ⟨tagPos, valPos - tagPos - 1, none, 0⟩
          (Run.after [valPos + 1] (if data (valPos + 1) = ';' then ⟨[], [], valPos + 2⟩ else scan data length (valPos + 1) (valPos + 1))))
    else Run.after [i] (scan data length (i + 1) tagPos)
  else ⟨[], [], length⟩
termination_by length - i

def tokenize (data : Memory) (length : Nat) : Run := scan data length 0 0

def Holds (data : Memory) : Nat → Text → Prop
  | _, [] => True
  | i, c :: rest => data i = c ∧ Holds data (i + 1) rest

-- Where the text breaks off: right behind the comma of an atom, or behind the
-- space of a tag. An atom is a tag, a space, and what comes up to a comma; a
-- semicolon behind an atom ends the message.
inductive BreaksOff : Bool → Text → Prop where
  | atom : BreaksOff true []
  | space (ended : Bool) (tag : Text) (clean : ' ' ∉ tag) (inner : ended = true → tag.head? ≠ some ';') :
      BreaksOff ended (tag ++ [' '])
  | later (ended : Bool) (tag body rest : Text) (clean : ' ' ∉ tag) (inner : ended = true → tag.head? ≠ some ';')
      (whole : ',' ∉ body) (off : BreaksOff true rest) : BreaksOff ended (tag ++ ' ' :: (body ++ ',' :: rest))

inductive Cut : Text → Prop where
  | tag (tag : Text) (clean : ' ' ∉ tag) : Cut tag
  | space (tag : Text) (clean : ' ' ∉ tag) : Cut (tag ++ [' '])
  | value (tag : Text) (c : Char) (body : Text) (clean : ' ' ∉ tag) (first : c ≠ ',') (whole : ',' ∉ body) :
      Cut (tag ++ ' ' :: c :: body)
  | atom (tag body rest : Text) (clean : ' ' ∉ tag) (whole : ',' ∉ body) : Cut (tag ++ ' ' :: (body ++ ',' :: rest))

def TagCall.Inside (length : Nat) (call : TagCall) : Prop :=
  (0 ≤ call.tagLen ∧ call.tag + call.tagLen ≤ length) ∧ 0 ≤ call.valLen ∧
    match call.val with
    | none => call.valLen = 0
    | some place => place + call.valLen ≤ length

structure Run.Inside (length : Nat) (run : Run) : Prop where
  reads : ∀ place ∈ run.reads, place < length
  calls : ∀ call ∈ run.calls, call.Inside length

-- onTag_ of parse_messages pushes the atom with the lengths as uint16_t.
def TagCall.atom (base : Nat) (call : TagCall) : Atom :=
  ⟨base + call.tag, .ofInt call.tagLen, call.val.map (base + ·), .ofInt call.valLen⟩

def callFor (tagPos valPos : Nat) (body : Text) : TagCall :=
  ⟨tagPos, valPos - tagPos - 1, if body = [] then none else some valPos,
    if body.getLast? = some ' ' then body.length - 1 else body.length⟩

theorem text_cut (text : Text) : Cut text := by
  by_cases spaced : ' ' ∈ text
  · obtain ⟨tag, behind, rfl, clean⟩ := List.eq_append_cons_of_mem spaced
    by_cases closed : ',' ∈ behind
    · obtain ⟨body, rest, rfl, whole⟩ := List.eq_append_cons_of_mem closed
      exact .atom tag body rest clean whole
    · cases behind with
      | nil => exact .space tag clean
      | cons c body =>
          simp only [List.mem_cons, not_or] at closed
          exact .value tag c body clean (Ne.symm closed.1) closed.2
  · exact .tag text spaced

theorem holds_append (data : Memory) (front back : Text) (i : Nat) :
    Holds data i (front ++ back) ↔ Holds data i front ∧ Holds data (i + front.length) back := by
  induction front generalizing i with
  | nil => simp [Holds]
  | cons c front ih =>
      rw [List.cons_append, Holds, Holds, ih, List.length_cons, and_assoc, Nat.add_right_comm, Nat.add_assoc]

theorem seek_past (data : Memory) (body rest : Text) (i : Nat) (clean : ',' ∉ body) (holds : Holds data i body) :
    seekComma data (body.length + rest.length) i =
      ((seekComma data rest.length (i + body.length)).1.map (· + body.length),
        List.range' i body.length ++ (seekComma data rest.length (i + body.length)).2) := by
  induction body generalizing i with
  | nil => simp
  | cons c body ih =>
      simp only [List.mem_cons, not_or] at clean
      obtain ⟨here, later⟩ := holds
      have other : ¬ data i = ',' := fun comma => clean.1 (comma ▸ here)
      rw [List.length_cons, Nat.add_right_comm, seekComma, if_neg other, ih (i + 1) clean.2 later, List.range'_succ]
      simp only [Option.map_map, Function.comp_def, List.cons_append, Nat.add_assoc, Nat.add_comm 1]

theorem scan_past (data : Memory) (length : Nat) (tag : Text) (i tagPos : Nat) (clean : ' ' ∉ tag) (holds : Holds data i tag)
    (within : i + tag.length ≤ length) :
    scan data length i tagPos = Run.after (List.range' i tag.length) (scan data length (i + tag.length) tagPos) := by
  induction tag generalizing i with
  | nil => rfl
  | cons c tag ih =>
      simp only [List.mem_cons, not_or] at clean
      obtain ⟨here, later⟩ := holds
      rw [List.length_cons] at within
      have other : ¬ data i = ' ' := fun space => clean.1 (space ▸ here)
      rw [scan, if_pos (by omega), if_neg other, ih (i + 1) clean.2 later (by omega), List.length_cons, List.range'_succ,
        Nat.add_right_comm, Nat.add_assoc]
      rfl

theorem seek_body (data : Memory) (body : Text) (i : Nat) (clean : ',' ∉ body) (holds : Holds data i body) :
    seekComma data body.length i = (none, List.range' i body.length) := by
  have past := seek_past data body [] i clean holds
  simpa [seekComma] using past

theorem seek_comma (data : Memory) (body rest : Text) (i : Nat) (clean : ',' ∉ body) (holds : Holds data i (body ++ ',' :: rest)) :
    seekComma data (body ++ ',' :: rest).length i = (some body.length, List.range' i body.length ++ [i + body.length]) := by
  obtain ⟨front, here, _⟩ := (holds_append data body (',' :: rest) i).mp holds
  have past := seek_past data body (',' :: rest) i clean front
  rw [List.length_append, past, List.length_cons, seekComma, if_pos here]
  simp

theorem first_other (data : Memory) (body : Text) (i : Nat) (present : body ≠ []) (clean : ',' ∉ body) (holds : Holds data i body) :
    data i ≠ ',' := by
  cases body with
  | nil => exact absurd rfl present
  | cons c body =>
      rw [holds.1]
      rintro rfl
      exact clean List.mem_cons_self

theorem scan_open (data : Memory) (length : Nat) (body : Text) (i tagPos : Nat) (space : data i = ' ') (present : body ≠ [])
    (clean : ',' ∉ body) (holds : Holds data (i + 1) body) (ends : i + 1 + body.length = length) :
    scan data length i tagPos = Run.after (i :: (i + 1) :: List.range' (i + 1) body.length) ⟨[], [], length⟩ := by
  have first := first_other data body (i + 1) present clean holds
  rw [scan, if_pos (by omega), if_pos space]
  simp only [if_pos first]
  rw [show length - (i + 1) = body.length by omega, seek_body data body (i + 1) clean holds]

theorem last_behind (data : Memory) (body : Text) (i : Nat) (present : body ≠ []) (holds : Holds data i body) :
    data (i + body.length - 1) = ' ' ↔ body.getLast? = some ' ' := by
  obtain ⟨front, c, rfl⟩ : ∃ front c, body = front ++ [c] := ⟨_, _, (List.dropLast_append_getLast present).symm⟩
  obtain ⟨_, here, _⟩ := (holds_append data front [c] i).mp holds
  rw [List.length_append, List.length_singleton, ← Nat.add_assoc, Nat.add_sub_cancel, here]
  simp

theorem scan_closed (data : Memory) (length : Nat) (body rest : Text) (i tagPos : Nat) (space : data i = ' ')
    (clean : ',' ∉ body) (holds : Holds data (i + 1) (body ++ ',' :: rest)) (ends : i + 1 + (body ++ ',' :: rest).length = length) :
    ∃ reads, (∀ place ∈ reads, place < length) ∧
      scan data length i tagPos = Run.after reads (Run.calling (callFor tagPos (i + 1) body)
        (Run.after [i + 1 + body.length + 1] (if data (i + 1 + body.length + 1) = ';' then ⟨[], [], i + 1 + body.length + 2⟩
          else scan data length (i + 1 + body.length + 1) (i + 1 + body.length + 1)))) := by
  obtain ⟨front, here, _⟩ := (holds_append data body (',' :: rest) (i + 1)).mp holds
  rw [List.length_append, List.length_cons] at ends
  by_cases empty : body = []
  · subst empty
    refine ⟨[i, i + 1], ?_, ?_⟩
    · intro place member
      simp only [List.mem_cons, List.not_mem_nil, or_false] at member
      cases member with
      | inl first => omega
      | inr second => omega
    · have comma : ¬ data (i + 1) ≠ ',' := by simpa using here
      rw [scan, if_pos (by omega), if_pos space]
      simp only [if_neg comma]
      rfl
  · have first := first_other data body (i + 1) empty clean front
    have positive := List.length_pos_iff.mpr empty
    refine ⟨i :: (i + 1) :: (List.range' (i + 1) body.length ++ [i + 1 + body.length] ++ [i + 1 + body.length - 1]), ?_, ?_⟩
    · intro place member
      simp only [List.mem_cons, List.mem_append, List.mem_range'_1, List.not_mem_nil, or_false] at member
      omega
    · have last := last_behind data body (i + 1) empty front
      rw [scan, if_pos (by omega), if_pos space]
      simp only [if_pos first]
      rw [show length - (i + 1) = (body ++ ',' :: rest).length by simp; omega, seek_comma data body rest (i + 1) clean holds]
      have span : ((i + 1 + body.length : Nat) : Int) - (i + 1 : Nat) = body.length := by omega
      simp only [last, callFor, if_neg empty, span]

theorem uint16_of_nat (n : Nat) : UInt16.ofInt n = .ofNat n := by
  rw [← UInt16.toNat_inj, UInt16.ofInt, UInt16.toNat_ofNat', UInt16.toNat_ofNat']
  omega

theorem uint16_of_int (value : Int) (n : Nat) (same : value = n) : UInt16.ofInt value = .ofNat n := same ▸ uint16_of_nat n

-- The same reading in the model whose reads behind the text are faults.
section Text

variable (base length : Nat)

theorem scan_tag_end (tag : Text) (i tagPos : Nat) (clean : ' ' ∉ tag) :
    scanTag base length false tag i tagPos = .ok ([], length) := by
  induction tag generalizing i with
  | nil => simp [scanTag]
  | cons c tag ih =>
      simp only [List.mem_cons, not_or] at clean
      rw [scanTag, if_neg (by simp), if_neg (Ne.symm clean.1), ih (i + 1) clean.2]

theorem scan_value_end (body : Text) (last : Char) (i tagPos valPos : Nat) (clean : ',' ∉ body) :
    scanValue base length last body i tagPos valPos = .ok ([], length) := by
  induction body generalizing last i with
  | nil => simp [scanValue]
  | cons c body ih =>
      simp only [List.mem_cons, not_or] at clean
      rw [scanValue, if_neg (Ne.symm clean.1), ih c (i + 1) clean.2]

theorem scan_value_comma (body rest : Text) (last : Char) (i tagPos valPos : Nat) (clean : ',' ∉ body) :
    scanValue base length last (body ++ ',' :: rest) i tagPos valPos =
      (scanTag base length true rest (i + body.length + 1) (i + body.length + 1)).map
        (before (atomAt base tagPos (valPos - tagPos - 1) (some valPos)
          (if (last :: body).getLast? = some ' ' then i + body.length - valPos - 1 else i + body.length - valPos))) := by
  induction body generalizing last i with
  | nil => simp [scanValue]
  | cons c body ih =>
      simp only [List.mem_cons, not_or] at clean
      rw [List.cons_append, scanValue, if_neg (Ne.symm clean.1), ih c (i + 1) clean.2, List.length_cons, List.getLast?_cons_cons]
      simp only [Nat.add_comm, Nat.add_left_comm]

theorem scan_first_comma (body rest : Text) (valPos tagPos : Nat) (clean : ',' ∉ body) (behind : tagPos < valPos) :
    scanFirst base length (body ++ ',' :: rest) valPos tagPos =
      (scanTag base length true rest (valPos + body.length + 1) (valPos + body.length + 1)).map
        (before ((callFor tagPos valPos body).atom base)) := by
  have tagLen : UInt16.ofInt ((valPos : Int) - tagPos - 1) = .ofNat (valPos - tagPos - 1) := uint16_of_int _ _ (by omega)
  cases body with
  | nil =>
      rw [List.nil_append, scanFirst, if_pos rfl]
      simp only [callFor, TagCall.atom, atomAt, tagLen, if_true]
      rfl
  | cons c body =>
      simp only [List.mem_cons, not_or] at clean
      rw [List.cons_append, scanFirst, if_neg (Ne.symm clean.1), scan_value_comma base length body rest c _ _ _ clean.2]
      have ends : valPos + 1 + body.length = valPos + (c :: body).length := by
        rw [List.length_cons]
        omega
      have valLen : UInt16.ofInt (if (c :: body).getLast? = some ' ' then ((c :: body).length : Int) - 1 else (c :: body).length) =
          .ofNat (if (c :: body).getLast? = some ' ' then valPos + (c :: body).length - valPos - 1
            else valPos + (c :: body).length - valPos) := by
        rw [List.length_cons]
        by_cases spaced : (c :: body).getLast? = some ' '
        · rw [if_pos spaced, if_pos spaced]
          exact uint16_of_int _ _ (by omega)
        · rw [if_neg spaced, if_neg spaced]
          exact uint16_of_int _ _ (by omega)
      simp only [callFor, TagCall.atom, atomAt, tagLen, ends, if_neg (List.cons_ne_nil c body), valLen]

theorem ended_other (c : Char) (rest : Text) (i tagPos : Nat) (other : c ≠ ';') :
    scanTag base length true (c :: rest) i tagPos = scanTag base length false (c :: rest) i tagPos := by
  have opened (ended : Bool) (apart : ¬ (ended = true ∧ c = ';')) : scanTag base length ended (c :: rest) i tagPos =
      if c = ' ' then scanFirst base length rest (i + 1) tagPos else scanTag base length false rest (i + 1) tagPos := by
    rw [scanTag, if_neg apart]
  rw [opened true fun both => other both.2, opened false (by simp)]

theorem ended_opened (text : Text) (i tagPos : Nat) (present : text ≠ []) (other : text.head? ≠ some ';') :
    scanTag base length true text i tagPos = scanTag base length false text i tagPos := by
  cases text with
  | nil => exact absurd rfl present
  | cons c rest => exact ended_other base length c rest i tagPos fun same => other (congrArg some same)

theorem ended_stopped (text : Text) (i tagPos : Nat) (fault : Fault) (stopped : text = [] ∨ text.head? = some ';')
    (failed : scanTag base length true text i tagPos = .error fault) : BreaksOff true text := by
  cases text with
  | nil => exact .atom
  | cons c rest =>
      have semicolon : c = ';' := by simpa using stopped
      rw [scanTag, if_pos ⟨rfl, semicolon⟩] at failed
      contradiction

theorem tag_inner (ended : Bool) (tag rest : Text) (c : Char)
    (inner : ended = true → (tag ++ c :: rest).head? ≠ some ';') (isEnded : ended = true) : tag.head? ≠ some ';' := by
  have apart := inner isEnded
  cases tag with
  | nil => simp
  | cons d tag => simpa using apart

-- A fault means that the text breaks off; induction on its length, atom by atom.
theorem fault_breaks_off (text : Text) (ended : Bool) (i tagPos : Nat) (fault : Fault) (start : tagPos ≤ i)
    (failed : scanTag base length ended text i tagPos = .error fault) : BreaksOff ended text := by
  by_cases stopped : ended = true ∧ (text = [] ∨ text.head? = some ';')
  · obtain ⟨rfl, here⟩ := stopped
    exact ended_stopped base length text i tagPos fault here failed
  · have inner (isEnded : ended = true) : text.head? ≠ some ';' := fun semicolon => stopped ⟨isEnded, .inr semicolon⟩
    cases text_cut text with
    | tag _ clean =>
        have opened : scanTag base length ended text i tagPos = scanTag base length false text i tagPos := by
          cases ended with
          | false => rfl
          | true => exact ended_opened base length text i tagPos (fun empty => stopped ⟨rfl, .inl empty⟩) (inner rfl)
        rw [opened, scan_tag_end base length text i tagPos clean] at failed
        contradiction
    | space tag clean => exact .space ended tag clean (tag_inner ended tag [] ' ' inner)
    | value tag c body clean first whole =>
        have tagInner := tag_inner ended tag (c :: body) ' ' inner
        rw [scan_tag base length tag (c :: body) ended i tagPos clean tagInner, scanFirst, if_neg first,
          scan_value_end base length body c _ _ _ whole] at failed
        contradiction
    | atom tag body rest clean whole =>
        have tagInner := tag_inner ended tag (body ++ ',' :: rest) ' ' inner
        rw [scan_tag base length tag _ ended i tagPos clean tagInner,
          scan_first_comma base length body rest _ tagPos whole (by omega)] at failed
        refine .later ended tag body rest clean tagInner whole ?_
        cases later : scanTag base length true rest (i + tag.length + 1 + body.length + 1) (i + tag.length + 1 + body.length + 1) with
        | ok found => simp [later] at failed
        | error missed => exact fault_breaks_off rest true _ _ missed (Nat.le_refl _) later
termination_by text.length
decreasing_by
  subst_vars
  simp only [List.length_append, List.length_cons]
  omega

theorem breaks_off_fault (ended : Bool) (text : Text) (off : BreaksOff ended text) (i tagPos : Nat) (start : tagPos ≤ i) :
    ∃ fault, scanTag base length ended text i tagPos = .error fault := by
  induction off generalizing i tagPos with
  | atom => exact ⟨.outOfRange, by rw [scanTag]; rfl⟩
  | space ended tag clean inner => exact ⟨.outOfRange, by rw [scan_tag base length tag [] ended i tagPos clean inner, scanFirst]⟩
  | later ended tag body rest clean inner whole off ih =>
      obtain ⟨fault, failed⟩ := ih (i + tag.length + 1 + body.length + 1) (i + tag.length + 1 + body.length + 1) (Nat.le_refl _)
      refine ⟨fault, ?_⟩
      rw [scan_tag base length tag _ ended i tagPos clean inner, scan_first_comma base length body rest _ tagPos whole (by omega),
        failed]
      rfl

end Text

def Agrees (base length : Nat) (run : Run) (outcome : Except Fault (List Atom × Nat)) : Prop :=
  match outcome with
  | .ok (atoms, rtn) => run.calls.map (TagCall.atom base) = atoms ∧ run.rtn = rtn ∧ run.Inside length
  | .error _ => length ∈ run.reads

section Agrees

variable (base length : Nat)

theorem agrees_after (run : Run) (outcome : Except Fault (List Atom × Nat)) (reads : List Nat) (within : ∀ place ∈ reads, place < length)
    (agrees : Agrees base length run outcome) : Agrees base length (run.after reads) outcome := by
  cases outcome with
  | error fault => exact List.mem_append_right reads agrees
  | ok found =>
      obtain ⟨calls, rtn, inside⟩ := agrees
      refine ⟨calls, rtn, fun place member => ?_, inside.calls⟩
      cases List.mem_append.mp member with
      | inl early => exact within place early
      | inr later => exact inside.reads place later

theorem agrees_calling (run : Run) (outcome : Except Fault (List Atom × Nat)) (call : TagCall) (callInside : call.Inside length)
    (agrees : Agrees base length run outcome) :
    Agrees base length (run.calling call) (outcome.map (before (call.atom base))) := by
  cases outcome with
  | error fault => exact agrees
  | ok found =>
      obtain ⟨calls, rtn, inside⟩ := agrees
      refine ⟨by simp [Run.calling, calls], rtn, inside.reads, fun other member => ?_⟩
      cases List.mem_cons.mp member with
      | inl first => exact first ▸ callInside
      | inr later => exact inside.calls other later

theorem call_for_inside (tagPos valPos : Nat) (body : Text) (behind : tagPos < valPos) (within : valPos + body.length ≤ length) :
    (callFor tagPos valPos body).Inside length := by
  cases body with
  | nil =>
      simp only [TagCall.Inside, callFor, List.length_nil] at within ⊢
      refine ⟨⟨by omega, by omega⟩, by simp, by simp⟩
  | cons c body =>
      rw [List.length_cons] at within
      simp only [TagCall.Inside, callFor, if_neg (List.cons_ne_nil c body), List.length_cons]
      split
      · omega
      · omega

theorem space_peeks (data : Memory) (i tagPos : Nat) (within : i < length) (space : data i = ' ') :
    i + 1 ∈ (scan data length i tagPos).reads := by
  rw [scan, if_pos within, if_pos space]
  by_cases comma : data (i + 1) ≠ ','
  · simp only [if_pos comma]
    cases seekComma data (length - (i + 1)) (i + 1) with
    | mk found reads =>
        cases found with
        | none => simp [Run.after]
        | some distance => simp [Run.after]
  · simp only [if_neg comma]
    simp [Run.after]

theorem range_within (i count : Nat) (within : i + count ≤ length) : ∀ place ∈ List.range' i count, place < length := by
  intro place member
  rw [List.mem_range'_1] at member
  omega

theorem agrees_tag (data : Memory) (tag behind : Text) (i tagPos : Nat) (clean : ' ' ∉ tag) (holds : Holds data i tag)
    (within : i + tag.length ≤ length)
    (agrees : Agrees base length (scan data length (i + tag.length) tagPos) (scanFirst base length behind (i + tag.length + 1) tagPos)) :
    Agrees base length (scan data length i tagPos) (scanTag base length false (tag ++ ' ' :: behind) i tagPos) := by
  rw [scan_past data length tag i tagPos clean holds within, scan_tag base length tag behind false i tagPos clean (by simp)]
  exact agrees_after base length _ _ _ (range_within length i tag.length within) agrees

theorem agrees_finished (reads : List Nat) (within : ∀ place ∈ reads, place < length) :
    Agrees base length (Run.after reads ⟨[], [], length⟩) (.ok ([], length)) :=
  agrees_after base length _ _ _ within ⟨rfl, rfl, by simp, by simp⟩

theorem agrees_flat (data : Memory) (tag : Text) (i tagPos : Nat) (clean : ' ' ∉ tag) (holds : Holds data i tag)
    (ends : i + tag.length = length) :
    Agrees base length (scan data length i tagPos) (scanTag base length false tag i tagPos) := by
  rw [scan_past data length tag i tagPos clean holds (Nat.le_of_eq ends), scan_tag_end base length tag i tagPos clean, ends, scan,
    if_neg (Nat.lt_irrefl length)]
  exact agrees_finished base length _ (range_within length i tag.length (Nat.le_of_eq ends))

theorem agrees_space (data : Memory) (i tagPos : Nat) (space : data i = ' ') (ends : i + 1 = length) :
    Agrees base length (scan data length i tagPos) (scanFirst base length [] (i + 1) tagPos) := by
  have peek := space_peeks length data i tagPos (by omega) space
  rw [scanFirst]
  exact ends ▸ peek

theorem agrees_value (data : Memory) (c : Char) (body : Text) (i tagPos : Nat) (space : data i = ' ') (first : c ≠ ',')
    (whole : ',' ∉ body) (holds : Holds data (i + 1) (c :: body)) (ends : i + 1 + (c :: body).length = length) :
    Agrees base length (scan data length i tagPos) (scanFirst base length (c :: body) (i + 1) tagPos) := by
  have clean : ',' ∉ c :: body := by simp [Ne.symm first, whole]
  rw [scan_open data length (c :: body) i tagPos space (List.cons_ne_nil c body) clean holds ends, scanFirst, if_neg first,
    scan_value_end base length body c _ _ _ whole]
  refine agrees_finished base length _ fun place member => ?_
  simp only [List.mem_cons, List.mem_range'_1] at member
  rw [List.length_cons] at ends member
  omega

theorem agrees_behind (data : Memory) (rest : Text) (i : Nat) (holds : Holds data i rest) (ends : i + rest.length = length)
    (later : Agrees base length (scan data length i i) (scanTag base length false rest i i)) :
    Agrees base length (Run.after [i] (if data i = ';' then ⟨[], [], i + 1⟩ else scan data length i i))
      (scanTag base length true rest i i) := by
  cases rest with
  | nil =>
      rw [List.length_nil] at ends
      rw [scanTag, ← ends]
      simp [Agrees, Run.after]
  | cons d rest =>
      have peek : ∀ place ∈ [i], place < length := by
        intro place member
        rw [List.length_cons] at ends
        rw [List.mem_singleton.mp member]
        omega
      refine agrees_after base length _ _ _ peek ?_
      by_cases semicolon : d = ';'
      · rw [if_pos (holds.1.trans semicolon), scanTag, if_pos ⟨rfl, semicolon⟩]
        exact ⟨rfl, rfl, by simp, by simp⟩
      · rw [if_neg (by rw [holds.1]; exact semicolon), ended_other base length d rest _ _ semicolon]
        exact later

theorem scan_agrees (data : Memory) (text : Text) (i tagPos : Nat) (start : tagPos ≤ i) (holds : Holds data i text)
    (ends : i + text.length = length) :
    Agrees base length (scan data length i tagPos) (scanTag base length false text i tagPos) := by
  cases text_cut text with
  | tag _ clean => exact agrees_flat base length data _ i tagPos clean holds ends
  | space tag clean =>
      obtain ⟨tagHolds, space, _⟩ := (holds_append data tag [' '] i).mp holds
      rw [List.length_append, List.length_singleton, ← Nat.add_assoc] at ends
      exact agrees_tag base length data tag [] i tagPos clean tagHolds (by omega) (agrees_space base length data _ tagPos space ends)
  | value tag c body clean first whole =>
      obtain ⟨tagHolds, space, behind⟩ := (holds_append data tag (' ' :: c :: body) i).mp holds
      rw [List.length_append, List.length_cons] at ends
      exact agrees_tag base length data tag (c :: body) i tagPos clean tagHolds (by omega)
        (agrees_value base length data c body _ tagPos space first whole behind (by omega))
  | atom tag body rest clean whole =>
      obtain ⟨tagHolds, space, behind⟩ := (holds_append data tag (' ' :: (body ++ ',' :: rest)) i).mp holds
      rw [List.length_append, List.length_cons] at ends
      obtain ⟨reads, within, run⟩ := scan_closed data length body rest (i + tag.length) tagPos space whole behind (by omega)
      obtain ⟨_, _, restHolds⟩ := (holds_append data body (',' :: rest) _).mp behind
      rw [List.length_append, List.length_cons] at ends
      refine agrees_tag base length data tag _ i tagPos clean tagHolds (by omega) ?_
      rw [run, scan_first_comma base length body rest _ tagPos whole (by omega)]
      have restEnds : i + tag.length + 1 + body.length + 1 + rest.length = length := by omega
      have later := scan_agrees data rest _ _ (Nat.le_refl _) restHolds restEnds
      exact agrees_after base length _ _ _ within (agrees_calling base length _ _ _
        (call_for_inside length _ _ body (by omega) (by omega)) (agrees_behind base length data rest _ restHolds restEnds later))
termination_by text.length
decreasing_by
  subst_vars
  simp only [List.length_append, List.length_cons]
  omega

end Agrees

def buffer (data : Memory) (length : Nat) : Text := (List.range length).map data

theorem buffer_holds (data : Memory) (length : Nat) : Holds data 0 (buffer data length) := by
  have from_ (i : Nat) : Holds data i ((List.range' i length).map data) := by
    induction length generalizing i with
    | zero => trivial
    | succ length ih => exact ⟨rfl, ih (i + 1)⟩
  rw [buffer, List.range_eq_range']
  exact from_ 0

theorem tokenize_agrees (base : Nat) (data : Memory) (length : Nat) :
    Agrees base length (tokenize data length) (tokenizeMessage base (buffer data length)) := by
  have size : (buffer data length).length = length := by simp [buffer]
  rw [tokenizeMessage, size]
  exact scan_agrees base length data (buffer data length) 0 0 (Nat.le_refl 0) (buffer_holds data length) (by omega)

theorem tokenize_inside_iff (data : Memory) (length : Nat) :
    (tokenize data length).Inside length ↔ ¬ BreaksOff false (buffer data length) := by
  have agrees := tokenize_agrees 0 data length
  constructor
  · intro inside off
    obtain ⟨fault, failed⟩ := breaks_off_fault 0 (buffer data length).length false _ off 0 0 (Nat.le_refl 0)
    rw [tokenizeMessage, failed] at agrees
    exact Nat.lt_irrefl length (inside.reads length agrees)
  · intro whole
    cases outcome : tokenizeMessage 0 (buffer data length) with
    | ok found =>
        rw [outcome] at agrees
        exact agrees.2.2
    | error fault => exact absurd (fault_breaks_off 0 _ _ false 0 0 fault (Nat.le_refl 0) outcome) whole

theorem tokenize_reads_behind :
    let data : Memory := fun k => "sr ,;".toList.getD k '\x00'
    buffer data 3 = "sr ".toList ∧ (tokenize data 3).reads = [0, 1, 2, 3, 4] ∧ (tokenize data 3).rtn = 5 ∧
      ¬ (tokenize data 3).Inside 3 := by
  intro data
  have run : tokenize data 3 = ⟨[⟨0, 2, none, 0⟩], [0, 1, 2, 3, 4], 5⟩ := by
    simp [tokenize, scan, data, Run.after, Run.calling]
  refine ⟨rfl, by rw [run], by rw [run], fun inside => ?_⟩
  rw [run] at inside
  exact absurd (inside.reads 3 (by simp)) (by decide)

end Libx.Sleepy

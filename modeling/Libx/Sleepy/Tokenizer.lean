import Libx.Text
import Libx.Lib.Fallible

set_option autoImplicit false

namespace Libx.Sleepy

inductive Fault where
  | outOfRange
deriving DecidableEq, Repr

-- Pointers are places in the whole input; `val` is none for nullptr.
structure Atom where
  tag : Nat
  tagLen : UInt16
  val : Option Nat
  valLen : UInt16
deriving DecidableEq, Repr

-- onTag_ of parse_messages: the lengths become uint16_t.
def atomAt (data tagPos tagLen : Nat) (valPos : Option Nat) (valLen : Nat) : Atom :=
  ⟨data + tagPos, .ofNat tagLen, valPos.map (data + ·), .ofNat valLen⟩

def before (atom : Atom) (later : List Atom × Nat) : List Atom × Nat := (atom :: later.1, later.2)

-- The loops of tokenize_message over the characters left. The peek at
-- data_[tagPos] behind an atom is made at the head of the next round, which
-- starts at tagPos: `ended` says that an atom has just ended.
mutual
def scanTag (data length : Nat) (ended : Bool) : Text → Nat → Nat → Except Fault (List Atom × Nat)
  | [], _, _ => if ended then .error .outOfRange else .ok ([], length)
  | c :: rest, i, tagPos =>
      if ended = true ∧ c = ';' then .ok ([], i + 1)
      else if c = ' ' then scanFirst data length rest (i + 1) tagPos
      else scanTag data length false rest (i + 1) tagPos
def scanFirst (data length : Nat) : Text → Nat → Nat → Except Fault (List Atom × Nat)
  | [], _, _ => .error .outOfRange
  | c :: rest, valPos, tagPos =>
      if c = ',' then
        (scanTag data length true rest (valPos + 1) (valPos + 1)).map (before (atomAt data tagPos (valPos - tagPos - 1) none 0))
      else scanValue data length c rest (valPos + 1) tagPos valPos
def scanValue (data length : Nat) (last : Char) : Text → Nat → Nat → Nat → Except Fault (List Atom × Nat)
  | [], _, _, _ => .ok ([], length)
  | c :: rest, i, tagPos, valPos =>
      if c = ',' then
        (scanTag data length true rest (i + 1) (i + 1)).map
          (before (atomAt data tagPos (valPos - tagPos - 1) (some valPos) (if last = ' ' then i - valPos - 1 else i - valPos)))
      else scanValue data length c rest (i + 1) tagPos valPos
end

-- The atoms given to onTag_ and the returned int, for the length_ characters at data_.
def tokenizeMessage (data : Nat) (text : Text) : Except Fault (List Atom × Nat) := scanTag data text.length false text 0 0

mutual
theorem scan_tag_bounds (data length : Nat) (ended : Bool) (text : Text) (i tagPos : Nat) (atoms : List Atom) (rtn : Nat)
    (scanned : scanTag data length ended text i tagPos = .ok (atoms, rtn)) :
    rtn = length ∨ i < rtn ∧ rtn ≤ i + text.length := by
  cases text with
  | nil =>
      cases ended with
      | true => simp [scanTag] at scanned
      | false => simp_all [scanTag]
  | cons c rest =>
      rw [scanTag] at scanned
      by_cases stop : ended = true ∧ c = ';'
      · rw [if_pos stop] at scanned
        obtain ⟨_, rfl⟩ := Prod.mk.inj (Except.ok.inj scanned)
        exact .inr (by simp)
      · rw [if_neg stop] at scanned
        by_cases space : c = ' '
        · rw [if_pos space] at scanned
          have bounds := scan_first_bounds data length rest (i + 1) tagPos atoms rtn scanned
          simp only [List.length_cons]
          omega
        · rw [if_neg space] at scanned
          have bounds := scan_tag_bounds data length false rest (i + 1) tagPos atoms rtn scanned
          simp only [List.length_cons]
          omega
theorem scan_first_bounds (data length : Nat) (text : Text) (valPos tagPos : Nat) (atoms : List Atom) (rtn : Nat)
    (scanned : scanFirst data length text valPos tagPos = .ok (atoms, rtn)) :
    rtn = length ∨ valPos < rtn ∧ rtn ≤ valPos + text.length := by
  cases text with
  | nil => simp [scanFirst] at scanned
  | cons c rest =>
      rw [scanFirst] at scanned
      by_cases comma : c = ','
      · rw [if_pos comma] at scanned
        obtain ⟨⟨later, last⟩, others, made⟩ := (Fallible.map_ok_iff _ _ _).mp scanned
        obtain ⟨_, rfl⟩ := Prod.mk.inj made
        have bounds := scan_tag_bounds data length true rest (valPos + 1) (valPos + 1) later last others
        simp only [List.length_cons]
        omega
      · rw [if_neg comma] at scanned
        have bounds := scan_value_bounds data length c rest (valPos + 1) tagPos valPos atoms rtn scanned
        simp only [List.length_cons]
        omega
theorem scan_value_bounds (data length : Nat) (last : Char) (text : Text) (i tagPos valPos : Nat) (atoms : List Atom)
    (rtn : Nat) (scanned : scanValue data length last text i tagPos valPos = .ok (atoms, rtn)) :
    rtn = length ∨ i < rtn ∧ rtn ≤ i + text.length := by
  cases text with
  | nil =>
      obtain ⟨_, rfl⟩ := Prod.mk.inj (Except.ok.inj scanned)
      exact .inl rfl
  | cons c rest =>
      rw [scanValue] at scanned
      by_cases comma : c = ','
      · rw [if_pos comma] at scanned
        obtain ⟨⟨later, place⟩, others, made⟩ := (Fallible.map_ok_iff _ _ _).mp scanned
        obtain ⟨_, rfl⟩ := Prod.mk.inj made
        have bounds := scan_tag_bounds data length true rest (i + 1) (i + 1) later place others
        simp only [List.length_cons]
        omega
      · rw [if_neg comma] at scanned
        have bounds := scan_value_bounds data length c rest (i + 1) tagPos valPos atoms rtn scanned
        simp only [List.length_cons]
        omega
end

theorem tokenize_message_bounds (data : Nat) (text : Text) (atoms : List Atom) (rtn : Nat) (present : text ≠ [])
    (scanned : tokenizeMessage data text = .ok (atoms, rtn)) : 0 < rtn ∧ rtn ≤ text.length := by
  have positive := List.length_pos_iff.mpr present
  have bounds := scan_tag_bounds data text.length false text 0 0 atoms rtn scanned
  omega

structure Message where
  tokens : List Atom
  data : Nat
  length : Nat
deriving DecidableEq, Repr

-- The calls of onMessage_ and the returned length_; `text` is the length_
-- characters that are left at data_ + offset.
def parseMessages (offset : Nat) (text : Text) : Except Fault (List Message × Int) :=
  if _ : text ≠ [] then
    match _ : tokenizeMessage offset text with
    | .error fault => .error fault
    | .ok (tokens, rtn) =>
        if rtn < text.length then
          (parseMessages (offset + rtn) (text.drop rtn)).map fun later => (⟨tokens, offset, rtn⟩ :: later.1, later.2)
        else .ok ([⟨tokens, offset, rtn⟩], text.length - rtn)
  else .ok ([], 0)
termination_by text.length
decreasing_by
  rename_i present scanned short
  have bounds := tokenize_message_bounds offset text tokens rtn present scanned
  rw [List.length_drop]
  omega

theorem parse_messages_nil (offset : Nat) : parseMessages offset [] = .ok ([], 0) := by
  rw [parseMessages]
  simp

-- One round of the loop; the last one leaves nothing, so the two ways out of it agree.
theorem parse_messages_round (offset : Nat) (text : Text) (tokens : List Atom) (rtn : Nat) (present : text ≠ [])
    (scanned : tokenizeMessage offset text = .ok (tokens, rtn)) :
    parseMessages offset text =
      (parseMessages (offset + rtn) (text.drop rtn)).map fun later => (⟨tokens, offset, rtn⟩ :: later.1, later.2) := by
  have bounds := tokenize_message_bounds offset text tokens rtn present scanned
  rw [parseMessages, dif_pos present]
  split
  · rename_i failed
    rw [scanned] at failed
    contradiction
  · rename_i again
    rw [scanned] at again
    obtain ⟨rfl, rfl⟩ := Prod.mk.inj (Except.ok.inj again)
    by_cases short : rtn < text.length
    · rw [if_pos short]
    · obtain rfl : rtn = text.length := by omega
      rw [if_neg short, List.drop_length, parse_messages_nil]
      simp

-- std::string( pointer, length ).
def stringAt (input : Text) (place length : Nat) : Text := (input.drop place).take length

def Message.slice (input : Text) (message : Message) : Text := stringAt input message.data message.length

def Consecutive : Nat → List Message → Prop
  | _, [] => True
  | place, message :: later => message.data = place ∧ Consecutive (place + message.length) later

theorem string_at_middle (front middle back : Text) : stringAt (front ++ (middle ++ back)) front.length middle.length = middle := by
  simp [stringAt]

theorem parse_messages_slices (front text : Text) (messages : List Message) (left : Int)
    (parsed : parseMessages front.length text = .ok (messages, left)) :
    left = 0 ∧ Consecutive front.length messages ∧ messages.flatMap (Message.slice (front ++ text)) = text := by
  induction size : text.length using Nat.strongRecOn generalizing front text messages with
  | _ n ih =>
      by_cases present : text ≠ []
      · cases scanned : tokenizeMessage front.length text with
        | error fault =>
            rw [parseMessages, dif_pos present] at parsed
            split at parsed <;> simp_all
        | ok found =>
            obtain ⟨tokens, rtn⟩ := found
            have bounds := tokenize_message_bounds front.length text tokens rtn present scanned
            rw [parse_messages_round front.length text tokens rtn present scanned] at parsed
            obtain ⟨⟨later, last⟩, others, made⟩ := (Fallible.map_ok_iff _ _ _).mp parsed
            obtain ⟨rfl, rfl⟩ := Prod.mk.inj made
            have place : (front ++ text.take rtn).length = front.length + rtn := by simp [bounds.2]
            have whole : front ++ text.take rtn ++ text.drop rtn = front ++ text := by simp
            rw [← place] at others
            obtain ⟨none_left, consecutive, rest⟩ := ih (text.drop rtn).length (by rw [List.length_drop]; omega)
              (front ++ text.take rtn) (text.drop rtn) later others rfl
            have here : Message.slice (front ++ text) ⟨tokens, front.length, rtn⟩ = text.take rtn := by
              simp [Message.slice, stringAt]
            rw [whole] at rest
            rw [place] at consecutive
            refine ⟨none_left, ⟨rfl, consecutive⟩, ?_⟩
            rw [List.flatMap_cons, here, rest, List.take_append_drop]
      · obtain rfl : text = [] := by simpa using present
        rw [parse_messages_nil] at parsed
        obtain ⟨rfl, rfl⟩ := Prod.mk.inj (Except.ok.inj parsed)
        exact ⟨rfl, trivial, rfl⟩

end Libx.Sleepy

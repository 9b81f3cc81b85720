import Libx.Sleepy.Tokenizer

set_option autoImplicit false

namespace Libx.Sleepy

def encodeAtom (atom : Text × Text) : Text :=
  if atom.2 = [] then atom.1 ++ [' ', ','] else atom.1 ++ ' ' :: (atom.2 ++ [' ', ','])

def encodeAtoms (atoms : List (Text × Text)) : Text := atoms.flatMap encodeAtom
def encodeMessage (message : List (Text × Text)) : Text := encodeAtoms message ++ [';']
def encode (messages : List (List (Text × Text))) : Text := messages.flatMap encodeMessage

structure Encodable (atom : Text × Text) : Prop where
  tag : ' ' ∉ atom.1
  value : ',' ∉ atom.2
  tagLen : atom.1.length < 65536
  valLen : atom.2.length < 65536

structure Sendable (message : List (Text × Text)) : Prop where
  present : message ≠ []
  encodable : ∀ atom ∈ message, Encodable atom
  inner : ∀ atom ∈ message.tail, atom.1.head? ≠ some ';'

def Atom.read (input : Text) (atom : Atom) : Text × Text :=
  (stringAt input atom.tag atom.tagLen.toNat,
    match atom.val with
    | none => []
    | some place => stringAt input place atom.valLen.toNat)

def encodedAtom (data pos : Nat) (atom : Text × Text) : Atom :=
  atomAt data pos atom.1.length (if atom.2 = [] then none else some (pos + atom.1.length + 1)) atom.2.length

def encodedAtoms (data : Nat) : Nat → List (Text × Text) → List Atom
  | _, [] => []
  | pos, atom :: rest => encodedAtom data pos atom :: encodedAtoms data (pos + (encodeAtom atom).length) rest

def encodedMessages : Nat → List (List (Text × Text)) → List Message
  | _, [] => []
  | offset, message :: rest =>
      ⟨encodedAtoms offset 0 message, offset, (encodeMessage message).length⟩ ::
        encodedMessages (offset + (encodeMessage message).length) rest

variable (data length : Nat)

theorem scan_tag (tag rest : Text) (ended : Bool) (i tagPos : Nat) (clean : ' ' ∉ tag)
    (inner : ended = true → tag.head? ≠ some ';') :
    scanTag data length ended (tag ++ ' ' :: rest) i tagPos = scanFirst data length rest (i + tag.length + 1) tagPos := by
  induction tag generalizing i ended with
  | nil => simp [scanTag]
  | cons c tag ih =>
      have first : ¬ (ended = true ∧ c = ';') := by
        intro both
        exact inner both.1 (congrArg some both.2)
      have notSpace : c ≠ ' ' := fun same => clean (by simp [same])
      have others : ' ' ∉ tag := fun member => clean (List.mem_cons_of_mem c member)
      rw [List.cons_append, scanTag, if_neg first, if_neg notSpace, ih false (i + 1) others (by simp), List.length_cons]
      simp only [Nat.add_comm, Nat.add_left_comm]

theorem scan_value (value rest : Text) (last : Char) (i tagPos valPos : Nat) (clean : ',' ∉ value) (behind : valPos < i) :
    scanValue data length last (value ++ ' ' :: ',' :: rest) i tagPos valPos =
      (scanTag data length true rest (i + value.length + 2) (i + value.length + 2)).map
        (before (atomAt data tagPos (valPos - tagPos - 1) (some valPos) (i + value.length - valPos))) := by
  induction value generalizing last i with
  | nil =>
      have lastLen : i + 1 - valPos - 1 = i - valPos := by omega
      simp [scanValue, lastLen]
  | cons c value ih =>
      have notComma : c ≠ ',' := fun same => clean (by simp [same])
      have others : ',' ∉ value := fun member => clean (List.mem_cons_of_mem c member)
      rw [List.cons_append, scanValue, if_neg notComma, ih c (i + 1) others (by omega), List.length_cons]
      simp only [Nat.add_comm, Nat.add_left_comm]

theorem scan_atom (atom : Text × Text) (rest : Text) (ended : Bool) (pos : Nat) (encodable : Encodable atom)
    (inner : ended = true → atom.1.head? ≠ some ';') :
    scanTag data length ended (encodeAtom atom ++ rest) pos pos =
      (scanTag data length true rest (pos + (encodeAtom atom).length) (pos + (encodeAtom atom).length)).map
        (before (encodedAtom data pos atom)) := by
  obtain ⟨tag, value⟩ := atom
  have tagLen : pos + tag.length + 1 - pos - 1 = tag.length := by omega
  cases value with
  | nil =>
      have cut : encodeAtom (tag, []) ++ rest = tag ++ ' ' :: ',' :: rest := by simp [encodeAtom]
      have size : (encodeAtom (tag, [])).length = tag.length + 2 := by simp [encodeAtom]
      rw [cut, size, scan_tag data length tag _ ended pos pos encodable.tag inner, scanFirst, if_pos rfl, tagLen]
      rfl
  | cons c value =>
      have cut : encodeAtom (tag, c :: value) ++ rest = tag ++ ' ' :: c :: (value ++ ' ' :: ',' :: rest) := by
        simp [encodeAtom]
      have size : (encodeAtom (tag, c :: value)).length = tag.length + 1 + (value.length + 3) := by
        simp [encodeAtom]
        omega
      have notComma : c ≠ ',' := fun same => encodable.value (by simp [same])
      have others : ',' ∉ value := fun member => encodable.value (List.mem_cons_of_mem c member)
      rw [cut, size, scan_tag data length tag _ ended pos pos encodable.tag inner, scanFirst, if_neg notComma,
        scan_value data length value rest c _ _ _ others (by omega), tagLen]
      have valLen : pos + tag.length + 1 + 1 + value.length - (pos + tag.length + 1) = (c :: value).length := by
        rw [List.length_cons]
        omega
      have ends : pos + tag.length + 1 + 1 + value.length + 2 = pos + (tag.length + 1 + (value.length + 3)) := by omega
      rw [valLen, ends]
      rfl

theorem scan_atoms (atoms : List (Text × Text)) (rest : Text) (ended : Bool) (pos : Nat)
    (encodable : ∀ atom ∈ atoms, Encodable atom) (inner : ∀ atom ∈ atoms.tail, atom.1.head? ≠ some ';')
    (first : ended = true → ∀ atom ∈ atoms.head?, atom.1.head? ≠ some ';') (some_ : ended = true ∨ atoms ≠ []) :
    scanTag data length ended (encodeAtoms atoms ++ ';' :: rest) pos pos =
      .ok (encodedAtoms data pos atoms, pos + (encodeAtoms atoms).length + 1) := by
  induction atoms generalizing ended pos with
  | nil =>
      have isEnded : ended = true := by simpa using some_
      simp [encodeAtoms, scanTag, isEnded, encodedAtoms]
  | cons atom atoms ih =>
      have later := ih true (pos + (encodeAtom atom).length) (fun other member => encodable other (List.mem_cons_of_mem _ member))
        (fun other member => inner other (List.mem_of_mem_tail member))
        (fun _ other member => inner other (List.mem_of_mem_head? member)) (.inl rfl)
      have cut : encodeAtoms (atom :: atoms) ++ ';' :: rest = encodeAtom atom ++ (encodeAtoms atoms ++ ';' :: rest) := by
        simp [encodeAtoms]
      have size : (encodeAtoms (atom :: atoms)).length = (encodeAtom atom).length + (encodeAtoms atoms).length := by
        simp [encodeAtoms]
      rw [cut, size, scan_atom data length atom _ ended pos (encodable atom List.mem_cons_self) fun isEnded => first isEnded atom rfl,
        later, Fallible.ok_map, ← Nat.add_assoc]
      rfl

theorem tokenize_encoded (offset : Nat) (message : List (Text × Text)) (rest : Text) (sendable : Sendable message) :
    tokenizeMessage offset (encodeMessage message ++ rest) =
      .ok (encodedAtoms offset 0 message, (encodeMessage message).length) := by
  have scanned := scan_atoms offset (encodeMessage message ++ rest).length message rest false 0 sendable.encodable
    sendable.inner (by simp) (.inr sendable.present)
  have size : (encodeMessage message).length = 0 + (encodeAtoms message).length + 1 := by simp [encodeMessage]
  rw [tokenizeMessage, size, ← scanned]
  simp [encodeMessage]

theorem parse_encoded (messages : List (List (Text × Text))) (offset : Nat) (sendable : ∀ message ∈ messages, Sendable message) :
    parseMessages offset (encode messages) = .ok (encodedMessages offset messages, 0) := by
  induction messages generalizing offset with
  | nil => exact parse_messages_nil offset
  | cons message messages ih =>
      have first := tokenize_encoded offset message (encode messages) (sendable message List.mem_cons_self)
      have later := ih (offset + (encodeMessage message).length) fun other member => sendable other (List.mem_cons_of_mem _ member)
      have present : encodeMessage message ++ encode messages ≠ [] := by simp [encodeMessage]
      rw [show encode (message :: messages) = encodeMessage message ++ encode messages from rfl,
        parse_messages_round offset _ _ _ present first, List.drop_left, later]
      rfl

omit data length in
theorem uint16_keeps (n : Nat) (small : n < 65536) : (UInt16.ofNat n).toNat = n := UInt16.toNat_ofNat_of_lt' small

theorem read_encoded (front before back : Text) (atom : Text × Text) (encodable : Encodable atom) :
    (encodedAtom front.length before.length atom).read (front ++ (before ++ (encodeAtom atom ++ back))) = atom := by
  obtain ⟨tag, value⟩ := atom
  have tagLen := uint16_keeps tag.length encodable.tagLen
  have valLen := uint16_keeps value.length encodable.valLen
  have tagText (after : Text) : stringAt (front ++ (before ++ (tag ++ after))) (front.length + before.length) tag.length = tag := by
    simpa using string_at_middle (front ++ before) tag after
  cases value with
  | nil => simp [Atom.read, encodedAtom, atomAt, tagLen, encodeAtom, tagText]
  | cons c value =>
      have valText := string_at_middle (front ++ (before ++ (tag ++ [' ']))) (c :: value) (' ' :: ',' :: back)
      simp only [List.length_append, List.append_assoc, List.length_singleton, List.cons_append, List.nil_append] at valText
      simp only [Atom.read, encodedAtom, atomAt, if_neg (List.cons_ne_nil c value), tagLen, valLen, encodeAtom, Option.map_some,
        List.append_assoc, List.cons_append, List.nil_append, Nat.add_assoc, tagText, valText]

theorem read_atoms (front before back : Text) (atoms : List (Text × Text)) (encodable : ∀ atom ∈ atoms, Encodable atom) :
    (encodedAtoms front.length before.length atoms).map (Atom.read (front ++ (before ++ (encodeAtoms atoms ++ back)))) = atoms := by
  induction atoms generalizing before with
  | nil => rfl
  | cons atom atoms ih =>
      have here := read_encoded front before (encodeAtoms atoms ++ back) atom (encodable atom List.mem_cons_self)
      have later := ih (before ++ encodeAtom atom) fun other member => encodable other (List.mem_cons_of_mem _ member)
      have cut : encodeAtoms (atom :: atoms) ++ back = encodeAtom atom ++ (encodeAtoms atoms ++ back) := by simp [encodeAtoms]
      rw [List.length_append, List.append_assoc] at later
      rw [cut, encodedAtoms, List.map_cons, here, later]

theorem read_messages (front : Text) (messages : List (List (Text × Text))) (sendable : ∀ message ∈ messages, Sendable message) :
    (encodedMessages front.length messages).map (fun message => message.tokens.map (Atom.read (front ++ encode messages))) =
      messages := by
  induction messages generalizing front with
  | nil => rfl
  | cons message messages ih =>
      have here := read_atoms front [] (';' :: encode messages) message (sendable message List.mem_cons_self).encodable
      have later := ih (front ++ encodeMessage message) fun other member => sendable other (List.mem_cons_of_mem _ member)
      have cut : encode (message :: messages) = encodeAtoms message ++ ';' :: encode messages := by simp [encode, encodeMessage]
      have whole : front ++ encodeMessage message ++ encode messages = front ++ (encodeAtoms message ++ ';' :: encode messages) := by
        simp [encodeMessage]
      rw [List.length_append, whole] at later
      rw [encodedMessages, List.map_cons, cut, later]
      exact congrArg (· :: messages) here

theorem parse_encode (messages : List (List (Text × Text))) (sendable : ∀ message ∈ messages, Sendable message) :
    ∃ calls, parseMessages 0 (encode messages) = .ok (calls, 0) ∧
      calls.map (fun call => call.tokens.map (Atom.read (encode messages))) = messages ∧
      Consecutive 0 calls ∧ calls.flatMap (Message.slice (encode messages)) = encode messages := by
  have parsed := parse_encoded messages 0 sendable
  obtain ⟨_, consecutive, whole⟩ := parse_messages_slices [] (encode messages) _ 0 parsed
  exact ⟨encodedMessages 0 messages, parsed, read_messages [] messages sendable, consecutive, whole⟩

theorem parse_encode_messages : ∃ calls,
    parseMessages 0 (encode [[("sr".toList, "1".toList), ("e".toList, [])], [("ty".toList, ";a ".toList)]]) = .ok (calls, 0) ∧
      calls.map (fun call => call.tokens.map (Atom.read (encode [[("sr".toList, "1".toList), ("e".toList, [])],
        [("ty".toList, ";a ".toList)]]))) = [[("sr".toList, "1".toList), ("e".toList, [])], [("ty".toList, ";a ".toList)]] ∧
      Consecutive 0 calls ∧
      calls.flatMap (Message.slice (encode [[("sr".toList, "1".toList), ("e".toList, [])], [("ty".toList, ";a ".toList)]])) =
        "sr 1 ,e ,;ty ;a  ,;".toList := by
  apply parse_encode
  intro message member
  simp only [List.mem_cons, List.not_mem_nil, or_false] at member
  cases member with
  | inl first =>
      refine ⟨by simp [first], ?_, by simp [first]⟩
      intro atom inside
      simp only [first, List.mem_cons, List.not_mem_nil, or_false] at inside
      cases inside with
      | inl same => exact same ▸ ⟨by decide, by decide, by decide, by decide⟩
      | inr same => exact same ▸ ⟨by decide, by decide, by decide, by decide⟩
  | inr second =>
      refine ⟨by simp [second], ?_, by simp [second]⟩
      intro atom inside
      obtain rfl := List.mem_singleton.mp (second ▸ inside)
      exact ⟨by decide, by decide, by decide, by decide⟩

end Libx.Sleepy

import Libx.Sleepy.Reads

set_option autoImplicit false

namespace Libx.Sleepy

theorem seek_found (data : Memory) (left i distance : Nat) (reads : List Nat)
    (found : seekComma data left i = (some distance, reads)) : distance < left ∧ data (i + distance) = ',' := by
  induction left generalizing i distance reads with
  | zero => simp [seekComma] at found
  | succ left ih =>
      by_cases comma : data i = ','
      · rw [seekComma, if_pos comma] at found
        simp only [Prod.mk.injEq, Option.some.injEq] at found
        rw [← found.1]
        exact ⟨Nat.succ_pos left, comma⟩
      · rw [seekComma, if_neg comma] at found
        cases later : seekComma data left (i + 1) with
        | mk next more =>
            simp only [later, Prod.mk.injEq, Option.map_eq_some_iff] at found
            obtain ⟨⟨before, same, rfl⟩, _⟩ := found
            obtain ⟨bound, here⟩ := ih (i + 1) before more (same ▸ later)
            exact ⟨by omega, by rwa [show i + (before + 1) = i + 1 + before by omega]⟩

inductive Round (data : Memory) (length i tagPos : Nat) : Nat → Prop where
  | next : Round data length i tagPos (scan data length (i + 1) tagPos).rtn
  | finish : Round data length i tagPos length
  | stop (comma : Nat) (behind : i < comma) (here : data comma = ',') (semicolon : data (comma + 1) = ';')
      (near : comma ≤ length) : Round data length i tagPos (comma + 2)
  | again (comma : Nat) (behind : i < comma) (here : data comma = ',') (near : comma ≤ length) :
      Round data length i tagPos (scan data length (comma + 1) (comma + 1)).rtn

theorem atom_round (data : Memory) (length i tagPos comma : Nat) (reads : List Nat) (call : TagCall) (behind : i < comma)
    (here : data comma = ',') (near : comma ≤ length) :
    Round data length i tagPos (Run.after reads (Run.calling call (Run.after [comma + 1]
      (if data (comma + 1) = ';' then ⟨[], [], comma + 2⟩ else scan data length (comma + 1) (comma + 1))))).rtn := by
  by_cases semicolon : data (comma + 1) = ';'
  · rw [if_pos semicolon]
    exact .stop comma behind here semicolon near
  · rw [if_neg semicolon]
    exact .again comma behind here near

theorem scan_round (data : Memory) (length i tagPos : Nat) (bound : i < length) :
    Round data length i tagPos (scan data length i tagPos).rtn := by
  rw [scan, if_pos bound]
  by_cases space : data i = ' '
  · rw [if_pos space]
    by_cases comma : data (i + 1) ≠ ','
    · simp only [if_pos comma]
      cases sought : seekComma data (length - (i + 1)) (i + 1) with
      | mk found reads =>
          cases found with
          | none => exact .finish
          | some distance =>
              obtain ⟨inside, here⟩ := seek_found data _ _ distance reads sought
              exact atom_round data length i tagPos (i + 1 + distance) _ _ (by omega) here (by omega)
    · simp only [if_neg comma]
      exact atom_round data length i tagPos (i + 1) _ _ (by omega) (not_not.mp comma) (by omega)
  · rw [if_neg space]
    exact .next

theorem scan_finished (data : Memory) (length i tagPos : Nat) (finished : ¬ i < length) :
    (scan data length i tagPos).rtn = length := by
  rw [scan, if_neg finished]

theorem scan_advances (data : Memory) (length i tagPos : Nat) :
    (scan data length i tagPos).rtn = length ∨ i < (scan data length i tagPos).rtn := by
  by_cases bound : i < length
  · have round := scan_round data length i tagPos bound
    generalize (scan data length i tagPos).rtn = rtn at round
    cases round with
    | next =>
        have later := scan_advances data length (i + 1) tagPos
        omega
    | finish => exact .inl rfl
    | stop comma behind => exact .inr (by omega)
    | again comma behind =>
        have later := scan_advances data length (comma + 1) (comma + 1)
        omega
  · exact .inl (scan_finished data length i tagPos bound)
termination_by length - i

-- A terminator behind the last character is no comma and no semicolon, so no run goes past it.
theorem scan_terminated (data : Memory) (length i tagPos : Nat) (terminated : data length = '\x00') :
    (scan data length i tagPos).rtn ≤ length := by
  have apart (place : Nat) (c : Char) (here : data place = c) (other : c ≠ '\x00') : place ≠ length := by
    rintro rfl
    exact other (here.symm.trans terminated)
  by_cases bound : i < length
  · have round := scan_round data length i tagPos bound
    generalize (scan data length i tagPos).rtn = rtn at round
    cases round with
    | next => exact scan_terminated data length (i + 1) tagPos terminated
    | finish => exact Nat.le_refl length
    | stop comma behind here semicolon near =>
        have inside := apart comma ',' here (by decide)
        have within := apart (comma + 1) ';' semicolon (by decide)
        omega
    | again comma behind here near => exact scan_terminated data length (comma + 1) (comma + 1) terminated
  · exact Nat.le_of_eq (scan_finished data length i tagPos bound)
termination_by length - i

theorem tokenize_advances (data : Memory) (length : Nat) (present : 0 < length) : 0 < (tokenize data length).rtn := by
  have advances := scan_advances data length 0 0
  rw [tokenize]
  omega

-- The loop of parse_messages over the memory: the calls of onMessage_, and the returned length_.
def parse (data : Memory) (offset : Nat) (length : Int) : List Message × Int :=
  if _ : 0 < length then
    let run := tokenize (fun k => data (offset + k)) length.toNat
    let later := parse data (offset + run.rtn) (length - run.rtn)
    (⟨run.calls.map (TagCall.atom offset), offset, run.rtn⟩ :: later.1, later.2)
  else ([], length)
termination_by length.toNat
decreasing_by
  have advances := tokenize_advances (fun k => data (offset + k)) length.toNat (by omega)
  omega

theorem parse_round (data : Memory) (offset length : Nat) (present : 0 < length) :
    parse data offset length =
      (⟨(tokenize (fun k => data (offset + k)) length).calls.map (TagCall.atom offset), offset,
          (tokenize (fun k => data (offset + k)) length).rtn⟩ ::
        (parse data (offset + (tokenize (fun k => data (offset + k)) length).rtn)
          (length - (tokenize (fun k => data (offset + k)) length).rtn)).1,
        (parse data (offset + (tokenize (fun k => data (offset + k)) length).rtn)
          (length - (tokenize (fun k => data (offset + k)) length).rtn)).2) := by
  rw [parse, dif_pos (by omega)]
  simp only [Int.toNat_natCast]

theorem parse_end (data : Memory) (offset : Nat) : parse data offset (0 : Nat) = ([], 0) := by
  rw [parse, dif_neg (by omega)]
  rfl

def Message.shown (data : Memory) (message : Message) : Text := (List.range' message.data message.length).map data

theorem parse_terminated (data : Memory) (offset length : Nat) (terminated : data (offset + length) = '\x00') :
    ∃ calls, parse data offset length = (calls, 0) ∧ (∀ call ∈ calls, 0 < call.length) ∧ Consecutive offset calls ∧
      calls.flatMap (Message.shown data) = (List.range' offset length).map data := by
  induction size : length using Nat.strongRecOn generalizing offset length with
  | _ n ih =>
      subst size
      by_cases present : 0 < length
      · have advances := tokenize_advances (fun k => data (offset + k)) length present
        have within := scan_terminated (fun k => data (offset + k)) length 0 0 terminated
        change (tokenize (fun k => data (offset + k)) length).rtn ≤ length at within
        rw [parse_round data offset length present]
        generalize tokenize (fun k => data (offset + k)) length = run at advances within
        obtain ⟨left, split⟩ := Nat.exists_eq_add_of_le within
        have place : offset + run.rtn + left = offset + length := by omega
        obtain ⟨calls, parsed, positive, consecutive, shown⟩ := ih left (by omega) (offset + run.rtn) left
          (by rw [place]; exact terminated) rfl
        have rest : (length : Int) - run.rtn = left := by omega
        rw [rest, parsed]
        refine ⟨_, rfl, ?_, ⟨rfl, consecutive⟩, ?_⟩
        · intro call member
          cases List.mem_cons.mp member with
          | inl first => exact first ▸ advances
          | inr later => exact positive call later
        · rw [List.flatMap_cons, shown, split, ← List.range'_append_1, List.map_append]
          rfl
      · obtain rfl : length = 0 := by omega
        exact ⟨[], parse_end data offset, by simp, trivial, rfl⟩

theorem shifted_buffer (data : Memory) (offset length : Nat) :
    buffer (fun k => data (offset + k)) length = (List.range' offset length).map data := by
  have moved : (List.range' 0 length).map (offset + ·) = List.range' offset length := by simp [List.map_add_range']
  rw [buffer, List.range_eq_range', ← moved, List.map_map]
  rfl

theorem parse_agrees (data : Memory) (offset length : Nat) (messages : List Message) (left : Int)
    (parsed : parseMessages offset ((List.range' offset length).map data) = .ok (messages, left)) :
    parse data offset length = (messages, left) := by
  induction size : length using Nat.strongRecOn generalizing offset length messages left with
  | _ n ih =>
      subst size
      by_cases present : 0 < length
      · have filled : (List.range' offset length).map data ≠ [] := by
          intro empty
          have lengths := congrArg List.length empty
          simp only [List.length_map, List.length_range', List.length_nil] at lengths
          omega
        have agrees := tokenize_agrees offset (fun k => data (offset + k)) length
        rw [shifted_buffer] at agrees
        cases scanned : tokenizeMessage offset ((List.range' offset length).map data) with
        | error fault =>
            rw [parseMessages, dif_pos filled] at parsed
            split at parsed <;> simp_all
        | ok found =>
            obtain ⟨tokens, rtn⟩ := found
            have bounds := tokenize_message_bounds offset _ tokens rtn filled scanned
            rw [List.length_map, List.length_range'] at bounds
            rw [scanned] at agrees
            obtain ⟨calls, returned, _⟩ := agrees
            rw [parse_messages_round offset _ tokens rtn filled scanned] at parsed
            obtain ⟨⟨later, last⟩, others, made⟩ := (Fallible.map_ok_iff _ _ _).mp parsed
            obtain ⟨rest, split⟩ := Nat.exists_eq_add_of_le bounds.2
            rw [split, ← List.range'_append_1, List.map_append, List.drop_left' (by simp)] at others
            have behind := ih rest (by omega) (offset + rtn) rest later last others rfl
            have remaining : (length : Int) - rtn = rest := by omega
            rw [parse_round data offset length present, calls, returned, remaining, behind]
            exact made
      · obtain rfl : length = 0 := by omega
        rw [show (List.range' offset 0).map data = [] from rfl, parse_messages_nil] at parsed
        rw [parse_end]
        exact Except.ok.inj parsed

theorem parse_partitions (data : Memory) (n : Nat) (terminated : data n = '\x00') :
    ∃ calls, parse data 0 n = (calls, 0) ∧ (∀ call ∈ calls, 0 < call.length) ∧ Consecutive 0 calls ∧
      calls.flatMap (Message.shown data) = buffer data n := by
  obtain ⟨calls, parsed, positive, consecutive, shown⟩ := parse_terminated data 0 n (by rw [Nat.zero_add]; exact terminated)
  refine ⟨calls, parsed, positive, consecutive, ?_⟩
  rw [shown, buffer, List.range_eq_range']

theorem parse_partitions_cut :
    let data : Memory := fun k => "e but ,;sr 1 ,".toList.getD k '\x00'
    ∃ calls, parse data 0 14 = (calls, 0) ∧ (∀ call ∈ calls, 0 < call.length) ∧ Consecutive 0 calls ∧
      calls.flatMap (Message.shown data) = buffer data 14 := by
  intro data
  exact parse_partitions data 14 rfl

end Libx.Sleepy

import Libx.Http.Document

set_option autoImplicit false

namespace Libx.Http

open Search

def sessionSegment (tag value : Text) : Text := '/' :: (tag ++ value)

abbrev userTag : Text := ['4', '9', '=']
abbrev seqTag : Text := ['3', '4', '=']

theorem cut_field_behind (tag front value rest httpPath old lStrHttp : Text) (width : tag.length = 3)
    (whole : httpPath = front ++ (sessionSegment tag value ++ '/' :: rest))
    (first : Absent ('/' :: tag) front (sessionSegment tag value ++ '/' :: rest))
    (outside : ∀ c ∈ tag ++ value, c ∉ [' ', '/']) :
    cutField ('/' :: tag) httpPath old lStrHttp = (value, '/' :: rest) := by
  subst whole
  have found : find ('/' :: tag) (front ++ (sessionSegment tag value ++ '/' :: rest)) 0 = some front.length := by
    rw [find, List.drop_zero, find_absent _ _ _ _ first, Nat.zero_add]
    exact find_here _ _ _ ⟨value ++ '/' :: rest, by simp [sessionSegment]⟩
  have behind : (front ++ (sessionSegment tag value ++ '/' :: rest)).drop (front.length + 1) = (tag ++ value) ++ '/' :: rest := by
    rw [List.drop_append, sessionSegment]
    simp
  have stop : findFirstOf [' ', '/'] (front ++ (sessionSegment tag value ++ '/' :: rest)) (front.length + 1) =
      some (front.length + 4 + value.length) := by
    rw [findFirstOf, behind, find_of_past _ _ _ _ outside, findOfFrom, if_pos (by simp), List.length_append, width]
    congr 1
    omega
  have start : (front ++ (sessionSegment tag value ++ '/' :: rest)).drop (front.length + 4) = value ++ '/' :: rest := by
    have skipped := congrArg (List.drop 3) behind
    rw [List.drop_drop, List.append_assoc, ← width, List.drop_left, width] at skipped
    exact skipped
  have left : (front ++ (sessionSegment tag value ++ '/' :: rest)).drop (front.length + 4 + value.length) = '/' :: rest := by
    rw [← List.drop_drop, start, List.drop_left]
  rw [cutField, found]
  simp only [stop, between, Option.elim_some, left, start, if_pos (Nat.le_add_right _ _), Nat.add_sub_cancel_left,
    List.take_left]

theorem cut_fields (tag other value second rest httpPath : Text) (width : tag.length = 3 ∧ other.length = 3) (apart : tag ≠ other)
    (whole : httpPath = sessionSegment tag value ++ (sessionSegment other second ++ '/' :: rest))
    (outside : ∀ c ∈ tag ++ value, c ∉ [' ', '/']) (outsideSecond : ∀ c ∈ other ++ second, c ∉ [' ', '/'])
    (old lStrHttp : Text) :
    cutField ('/' :: tag) httpPath old lStrHttp = (value, sessionSegment other second ++ '/' :: rest) ∧
      cutField ('/' :: other) httpPath old lStrHttp = (second, '/' :: rest) := by
  have first := cut_field_behind tag [] value (other ++ second ++ '/' :: rest) httpPath old lStrHttp width.1 whole trivial outside
  have different : ¬ '/' :: other <+: sessionSegment tag value ++ (sessionSegment other second ++ '/' :: rest) := by
    intro here
    have same : other <+: tag := by
      refine List.prefix_of_prefix_length_le (List.cons_prefix_cons.mp here).2 ?_ (by omega)
      exact (List.prefix_append tag value).trans (List.prefix_append _ _)
    exact apart (same.eq_of_length (by omega)).symm
  have past : Absent ('/' :: other) (sessionSegment tag value) (sessionSegment other second ++ '/' :: rest) := by
    refine ⟨different, absent_head '/' other _ _ fun c member same => ?_⟩
    exact outside c member (by simp [same])
  exact ⟨first, cut_field_behind other _ second rest httpPath old lStrHttp width.2 whole past outsideSecond⟩

def Bare (value : Text) : Prop := '/' ∉ value ∧ ' ' ∉ value ∧ '?' ∉ value

theorem tagged_outside (tag value : Text) (known : tag = userTag ∨ tag = seqTag) (bare : Bare value) :
    ∀ c ∈ tag ++ value, c ∉ [' ', '/'] ∧ c ≠ '?' := by
  have clean : ∀ c ∈ tag, c ∉ [' ', '/'] ∧ c ≠ '?' := by
    rcases known with rfl | rfl <;> simp [userTag, seqTag]
  intro c member
  cases List.mem_append.mp member with
  | inl inTag => exact clean c inTag
  | inr inValue =>
      refine ⟨fun stop => ?_, fun same => bare.2.2 (same ▸ inValue)⟩
      simp only [List.mem_cons, List.not_mem_nil, or_false] at stop
      rcases stop with rfl | rfl
      · exact bare.2.1 inValue
      · exact bare.1 inValue

theorem push_cmds_segment (tag value rest : Text) (outside : ∀ c ∈ tag ++ value, c ∉ [' ', '/'] ∧ c ≠ '?') :
    pushCmds (sessionSegment tag value ++ '/' :: rest) = sessionSegment tag value :: pushCmds ('/' :: rest) := by
  have passed : ∀ c ∈ tag ++ value, c ∉ [' ', '/', '?'] := by
    intro c member stop
    obtain ⟨blank, mark⟩ := outside c member
    simp_all
  have width : 1 + (tag ++ value).length = (sessionSegment tag value).length := Nat.add_comm _ _
  have found : findFirstOf [' ', '/', '?'] (sessionSegment tag value ++ '/' :: rest) 1 = some (sessionSegment tag value).length := by
    rw [findFirstOf, sessionSegment, List.cons_append, List.drop_one, List.tail_cons, find_of_past _ _ _ _ passed, width,
      findOfFrom, if_pos (by simp), sessionSegment]
  rw [push_cmds_next _ _ found, List.take_left, List.drop_left, if_neg (by simp [front])]

theorem segments_cut (tag other value second path : Text) (known : tag = userTag ∨ tag = seqTag)
    (knownOther : other = userTag ∨ other = seqTag) (apart : tag ≠ other) (bare : Bare value) (bareSecond : Bare second)
    (clean : '?' ∉ path) :
    '?' ∉ sessionSegment tag value ++ (sessionSegment other second ++ '/' :: path) ∧ ∀ old lStrHttp : Text,
      cutField ('/' :: tag) (sessionSegment tag value ++ (sessionSegment other second ++ '/' :: path)) old lStrHttp =
          (value, sessionSegment other second ++ '/' :: path) ∧
        cutField ('/' :: other) (sessionSegment tag value ++ (sessionSegment other second ++ '/' :: path)) old lStrHttp =
          (second, '/' :: path) := by
  have outside := tagged_outside tag value known bare
  have outsideSecond := tagged_outside other second knownOther bareSecond
  have three (tag : Text) (known : tag = userTag ∨ tag = seqTag) : tag.length = 3 := by
    rcases known with rfl | rfl <;> rfl
  constructor
  · have noMark : '?' ∉ tag ++ value := fun member => (outside '?' member).2 rfl
    have noMarkSecond : '?' ∉ other ++ second := fun member => (outsideSecond '?' member).2 rfl
    simp only [List.mem_append, not_or] at noMark noMarkSecond
    simp [sessionSegment, noMark, noMarkSecond, clean]
  · exact cut_fields tag other value second path _ ⟨three tag known, three other knownOther⟩ apart rfl
      (fun c member => (outside c member).1) fun c member => (outsideSecond c member).1

structure Extracts (outputs : Outputs) (strHttp i n : Text) (cmds : List Text) (query : Text) : Prop where
  userIP : (extractDocument outputs strHttp).userIP = i
  seqNum : (extractDocument outputs strHttp).seqNum = n
  httpCmds : (extractDocument outputs strHttp).httpCmds = outputs.httpCmds ++ cmds
  nameValues : (extractDocument outputs strHttp).nameValues =
    if query = [] ∧ outputs.httpQuery = [] then outputs.nameValues
    else parseHTTP outputs.nameValues (if query = [] then outputs.httpQuery else query).tail

section Orders

variable (outputs : Outputs) (strHttp i n path query : Text) (bareUser : Bare i) (bareSeq : Bare n) (clean : '?' ∉ path)
  (stops : StopsAt '?' query)
include bareUser bareSeq clean stops

theorem extracts_in_order
    (request : requestOf strHttp = sessionSegment userTag i ++ (sessionSegment seqTag n ++ '/' :: path) ++ query) :
    Extracts outputs strHttp i n (pushCmds ('/' :: path)) query := by
  obtain ⟨cleanPath, cut⟩ := segments_cut userTag seqTag i n path (.inl rfl) (.inr rfl) (by decide) bareUser bareSeq clean
  obtain ⟨userIP, seqNum, httpCmds, nameValues⟩ := document_fields outputs strHttp _ query request cleanPath stops
  rw [(cut _ _).1] at userIP
  rw [(cut _ _).2] at seqNum httpCmds
  exact ⟨userIP, seqNum, httpCmds, nameValues⟩

theorem extracts_swapped
    (request : requestOf strHttp = sessionSegment seqTag n ++ (sessionSegment userTag i ++ '/' :: path) ++ query) :
    Extracts outputs strHttp i n (sessionSegment userTag i :: pushCmds ('/' :: path)) query := by
  obtain ⟨cleanPath, cut⟩ := segments_cut seqTag userTag n i path (.inr rfl) (.inl rfl) (by decide) bareSeq bareUser clean
  obtain ⟨userIP, seqNum, httpCmds, nameValues⟩ := document_fields outputs strHttp _ query request cleanPath stops
  rw [(cut _ _).2] at userIP
  rw [(cut _ _).1] at seqNum httpCmds
  rw [push_cmds_segment userTag i path (tagged_outside userTag i (.inl rfl) bareUser)] at httpCmds
  exact ⟨userIP, seqNum, httpCmds, nameValues⟩

end Orders

theorem session_order (outputs : Outputs) (strHttp swapped i n d : Text) (bareUser : Bare i) (bareSeq : Bare n)
    (rooted : d.head? = some '/') (first : requestOf strHttp = sessionSegment userTag i ++ (sessionSegment seqTag n ++ d))
    (second : requestOf swapped = sessionSegment seqTag n ++ (sessionSegment userTag i ++ d)) :
    (extractDocument outputs swapped).userIP = (extractDocument outputs strHttp).userIP ∧
      (extractDocument outputs swapped).seqNum = (extractDocument outputs strHttp).seqNum ∧
      (extractDocument outputs swapped).nameValues = (extractDocument outputs strHttp).nameValues ∧
      (extractDocument outputs strHttp).httpCmds = outputs.httpCmds ++ pushCmds (d.takeWhile (· ≠ '?')) ∧
      (extractDocument outputs swapped).httpCmds =
        outputs.httpCmds ++ sessionSegment userTag i :: pushCmds (d.takeWhile (· ≠ '?')) := by
  cases d with
  | nil => simp at rooted
  | cons c rest =>
      obtain rfl : c = '/' := Option.some.inj rooted
      obtain ⟨clean, stops⟩ := until_mark '?' rest
      have path : ('/' :: rest).takeWhile (· ≠ '?') = '/' :: rest.takeWhile (· ≠ '?') := rfl
      have inOrder := extracts_in_order outputs strHttp i n _ _ bareUser bareSeq clean stops (by simp [first])
      have reversed := extracts_swapped outputs swapped i n _ _ bareUser bareSeq clean stops (by simp [second])
      rw [path]
      exact ⟨reversed.userIP.trans inOrder.userIP.symm, reversed.seqNum.trans inOrder.seqNum.symm,
        reversed.nameValues.trans inOrder.nameValues.symm, inOrder.httpCmds, reversed.httpCmds⟩

theorem session_order_page :
    (extractDocument .empty "GET /34=7/49=u/a?b=1 ".toList).userIP = (extractDocument .empty "GET /49=u/34=7/a?b=1 ".toList).userIP ∧
      (extractDocument .empty "GET /34=7/49=u/a?b=1 ".toList).seqNum =
        (extractDocument .empty "GET /49=u/34=7/a?b=1 ".toList).seqNum ∧
      (extractDocument .empty "GET /34=7/49=u/a?b=1 ".toList).nameValues =
        (extractDocument .empty "GET /49=u/34=7/a?b=1 ".toList).nameValues ∧
      (extractDocument .empty "GET /49=u/34=7/a?b=1 ".toList).httpCmds =
        Outputs.empty.httpCmds ++ pushCmds ("/a?b=1".toList.takeWhile (· ≠ '?')) ∧
      (extractDocument .empty "GET /34=7/49=u/a?b=1 ".toList).httpCmds =
        Outputs.empty.httpCmds ++ sessionSegment userTag ['u'] :: pushCmds ("/a?b=1".toList.takeWhile (· ≠ '?')) :=
  session_order .empty "GET /49=u/34=7/a?b=1 ".toList "GET /34=7/49=u/a?b=1 ".toList ['u'] ['7'] "/a?b=1".toList
    ⟨by decide, by decide, by decide⟩ ⟨by decide, by decide, by decide⟩ rfl (by decide) (by decide)

theorem session_order_matters :
    (extractDocument .empty "GET /34=7/49=u/ ".toList).httpCmds ≠ (extractDocument .empty "GET /49=u/34=7/ ".toList).httpCmds := by
  have user : Bare ['u'] := ⟨by decide, by decide, by decide⟩
  have seq : Bare ['7'] := ⟨by decide, by decide, by decide⟩
  have inOrder := extracts_in_order .empty "GET /49=u/34=7/ ".toList ['u'] ['7'] [] [] user seq (by simp) (.inl rfl) (by decide)
  have reversed := extracts_swapped .empty "GET /34=7/49=u/ ".toList ['u'] ['7'] [] [] user seq (by simp) (.inl rfl) (by decide)
  rw [inOrder.httpCmds, reversed.httpCmds]
  intro same
  simpa using congrArg List.length same

end Libx.Http

import Libx.Http.NameValues

set_option autoImplicit false

namespace Libx.Http

open Search

-- rStr.find( what, pos ), for a text that is not empty.
def find (what text : Text) (pos : Nat) : Option Nat := findFrom what (text.drop pos) pos

-- rStr.substr( start, stop - start ): what a stop in front of start or npos
-- leaves of the difference is more than any text has.
def between (text : Text) (start : Nat) : Option Nat → Text
  | some stop => if start ≤ stop then (text.drop start).take (stop - start) else text.drop start
  | none => text.drop start

-- rtn, where _name, one character longer than lName, is found at pos.
def valueAt (rHttpMessage lName : Text) : Option Nat → Text
  | some pos => between rHttpMessage (pos + (lName.length + 1)) (find ['&'] rHttpMessage (pos + 1))
  | none => []

-- There is none for the empty name: its last character is read in front of the text.
def httpGetValueOfName (rHttpMessage rName : Text) : Option Text :=
  match rName.getLast? with
  | none => none
  | some last =>
      let lName := if last ≠ '=' then rName ++ ['='] else rName
      some (valueAt rHttpMessage lName ((find ('&' :: lName) rHttpMessage 0).or (find ('?' :: lName) rHttpMessage 0)))

theorem between_cut (mark : Char) (front skipped value rest : Text) (outside : mark ∉ skipped ++ value) (stops : StopsAt mark rest) :
    between (front ++ (skipped ++ (value ++ rest))) (front.length + skipped.length)
      (find [mark] (front ++ (skipped ++ (value ++ rest))) front.length) = value := by
  have start : (front ++ (skipped ++ (value ++ rest))).drop (front.length + skipped.length) = value ++ rest := by
    rw [← List.append_assoc, ← List.length_append, List.drop_left]
  rw [find, List.drop_left, ← List.append_assoc skipped value rest, find_mark mark _ rest _ outside stops, List.append_assoc]
  by_cases last : rest = []
  · rw [if_pos last, between, start, last, List.append_nil]
  · have count : front.length + (skipped ++ value).length - (front.length + skipped.length) = value.length := by
      rw [List.length_append, ← Nat.add_assoc, Nat.add_sub_cancel_left]
    rw [if_neg last, between, if_pos (by rw [List.length_append]; omega), start, count, List.take_left]

def FoundAt (mark : Char) (n text : Text) (i : Nat) (value : Text) : Prop :=
  ∃ front rest, text = front ++ mark :: (n ++ '=' :: (value ++ rest)) ∧ '&' ∉ value ∧ StopsAt '&' rest ∧
    findFrom (mark :: (n ++ ['='])) text i = some (i + front.length)

theorem found_behind (mark : Char) (n front text value : Text) (i : Nat) (absent : Absent (mark :: (n ++ ['='])) front text)
    (found : FoundAt mark n text (i + front.length) value) : FoundAt mark n (front ++ text) i value := by
  obtain ⟨before, rest, split, clean, stops, place⟩ := found
  refine ⟨front ++ before, rest, by rw [split, List.append_assoc], clean, stops, ?_⟩
  rw [find_absent _ front text i absent, place, List.length_append, Nat.add_assoc]

theorem name_behind_mark (n : Text) (pair : HttpNameValue) (rest : List HttpNameValue) (mark : Char) (assigned : '=' ∉ n)
    (legal : pair.Legal) : mark :: (n ++ ['=']) <+: mark :: renderQuery (pair :: rest) ↔ n = pair.name := by
  rw [List.cons_prefix_cons, render_query_cons, HttpNameValue.rendered, List.append_assoc, List.cons_append,
    marked_prefix '=' n pair.name _ assigned legal.noAssignment]
  simp

theorem found_first (n : Text) (pair : HttpNameValue) (rest : List HttpNameValue) (mark : Char) (i : Nat) (legal : pair.Legal)
    (named : n = pair.name) : FoundAt mark n (mark :: renderQuery (pair :: rest)) i pair.value := by
  refine ⟨[], queryTail rest, ?_, legal.clean, query_tail_stops rest, ?_⟩
  · rw [render_query_cons, HttpNameValue.rendered, named, List.append_assoc, List.cons_append, List.nil_append]
  · have here : mark :: (n ++ ['=']) <+: mark :: renderQuery (pair :: rest) := by
      rw [render_query_cons, HttpNameValue.rendered, named]
      exact ⟨pair.value ++ queryTail rest, by simp⟩
    exact find_here _ _ i here

theorem find_later (n : Text) (pair : HttpNameValue) (rest : List HttpNameValue) (i : Nat) (assigned : '=' ∉ n)
    (legal : ∀ other ∈ pair :: rest, other.Legal) :
    match rest.find? (fun other => n = other.name) with
    | some later => FoundAt '&' n (renderQuery (pair :: rest)) i later.value
    | none => findFrom ('&' :: (n ++ ['='])) (renderQuery (pair :: rest)) i = none := by
  induction rest generalizing pair i with
  | nil =>
      have absent := absent_head '&' (n ++ ['=']) pair.rendered (queryTail []) fun c member same =>
        rendered_clean pair (legal pair (by simp)) (same ▸ member)
      rw [List.find?_nil, render_query_cons, find_absent _ _ _ _ absent]
      simp [queryTail, findFrom]
  | cons next rest ih =>
      have absent := absent_head '&' (n ++ ['=']) pair.rendered (queryTail (next :: rest)) fun c member same =>
        rendered_clean pair (legal pair (by simp)) (same ▸ member)
      rw [query_tail_more] at absent
      rw [render_query_cons, query_tail_more]
      by_cases named : n = next.name
      · have first := found_first n next rest '&' (i + pair.rendered.length) (legal next (by simp)) named
        rw [List.find?_cons, decide_eq_true named]
        exact found_behind '&' n _ _ _ i absent first
      · have other := mt (name_behind_mark n next rest '&' assigned (legal next (by simp))).mp named
        have past : Absent ('&' :: (n ++ ['='])) (pair.rendered ++ ['&']) (renderQuery (next :: rest)) :=
          absent_append _ _ _ _ absent ⟨other, trivial⟩
        have later := ih next (i + (pair.rendered ++ ['&']).length) fun other member =>
          legal other (List.mem_cons_of_mem pair member)
        rw [List.find?_cons, decide_eq_false named, List.append_cons]
        cases found : rest.find? (fun other => n = other.name) with
        | some pair =>
            rw [found] at later
            exact found_behind '&' n _ _ _ i past later
        | none =>
            rw [found] at later
            exact (find_absent _ _ _ i past).trans later

def behind (what : Text) : List HttpNameValue → Text
  | [] => []
  | pair :: rest =>
      match findFrom what pair.rendered 0 with
      | some place => pair.rendered.drop (place + what.length)
      | none => behind what rest

theorem found_inside (n : Text) (pair : HttpNameValue) (rest : List HttpNameValue) (i place : Nat) (legal : pair.Legal)
    (found : findFrom ('?' :: (n ++ ['='])) pair.rendered 0 = some place) :
    FoundAt '?' n (renderQuery (pair :: rest)) i (behind ('?' :: (n ++ ['='])) (pair :: rest)) := by
  obtain ⟨front, value, split, position⟩ := find_some _ _ 0 place found
  rw [Nat.zero_add] at position
  have cut : behind ('?' :: (n ++ ['='])) (pair :: rest) = value := by
    rw [behind, found]
    simp only [split, position]
    rw [← List.length_append, ← List.append_assoc, List.drop_left]
  have clean : '&' ∉ value := fun member => rendered_clean pair legal (by rw [split]; simp [member])
  have shifted := find_shift ('?' :: (n ++ ['='])) pair.rendered 0 i
  rw [found, Nat.zero_add] at shifted
  refine ⟨front, queryTail rest, ?_, cut ▸ clean, query_tail_stops rest, ?_⟩
  · rw [render_query_cons, split, cut]
    simp
  · rw [render_query_cons, find_front _ _ _ i _ shifted, position, Nat.add_comm]

theorem find_stray (n : Text) (pair : HttpNameValue) (rest : List HttpNameValue) (i : Nat) (clean : '&' ∉ n)
    (legal : ∀ other ∈ pair :: rest, other.Legal) :
    findFrom ('?' :: (n ++ ['='])) (renderQuery (pair :: rest)) i = none ∧ behind ('?' :: (n ++ ['='])) (pair :: rest) = [] ∨
      FoundAt '?' n (renderQuery (pair :: rest)) i (behind ('?' :: (n ++ ['='])) (pair :: rest)) := by
  induction rest generalizing pair i with
  | nil =>
      cases found : findFrom ('?' :: (n ++ ['='])) pair.rendered 0 with
      | some place => exact .inr (found_inside n pair [] i place (legal pair (by simp)) found)
      | none =>
          left
          rw [render_query_cons, behind, found]
          have missing := find_shift ('?' :: (n ++ ['='])) pair.rendered 0 i
          rw [found, Nat.zero_add] at missing
          simpa [queryTail, behind] using missing
  | cons next rest ih =>
      cases found : findFrom ('?' :: (n ++ ['='])) pair.rendered 0 with
      | some place => exact .inr (found_inside n pair (next :: rest) i place (legal pair (by simp)) found)
      | none =>
          have apart : '&' ∉ ('?' :: (n ++ ['='])).tail := by simp [clean]
          have past : Absent ('?' :: (n ++ ['='])) (pair.rendered ++ ['&']) (renderQuery (next :: rest)) := by
            refine absent_append _ _ _ _ ?_ ⟨fun here => ?_, trivial⟩
            · exact absent_text _ pair.rendered (renderQuery (next :: rest)) '&' ((find_none_iff _ _ 0).mp found) apart
            · simp [List.cons_prefix_cons] at here
          have later := ih next (i + (pair.rendered ++ ['&']).length) fun other member =>
            legal other (List.mem_cons_of_mem pair member)
          rw [render_query_cons, query_tail_more, List.append_cons pair.rendered, behind, found]
          rcases later with ⟨missing, none_⟩ | stray
          · exact .inl ⟨(find_absent _ _ _ i past).trans missing, none_⟩
          · exact .inr (found_behind '?' n _ _ _ i past stray)

-- What HttpGetValueOfName returns for a rendered query: a later pair of the
-- name, else the first pair, else whatever reads like one inside a pair.
def searched (n : Text) (first : HttpNameValue) (others : List HttpNameValue) : Text :=
  match others.find? (fun other => n = other.name) with
  | some later => later.value
  | none => if n = first.name then first.value else behind ('?' :: (n ++ ['='])) (first :: others)

theorem value_at_found (n q value : Text) (mark : Char) (clean : '&' ∉ n) (found : FoundAt mark n q 0 value) :
    find (mark :: (n ++ ['='])) q 0 ≠ none ∧ valueAt q (n ++ ['=']) (find (mark :: (n ++ ['='])) q 0) = value := by
  obtain ⟨front, rest, split, cleanValue, stops, place⟩ := found
  have position : find (mark :: (n ++ ['='])) q 0 = some front.length := by
    rw [find, List.drop_zero, place, Nat.zero_add]
  have outside : '&' ∉ n ++ ['='] ++ value := by simp [clean, cleanValue]
  have cut := between_cut '&' (front ++ [mark]) (n ++ ['=']) value rest outside stops
  have whole : front ++ [mark] ++ (n ++ ['='] ++ (value ++ rest)) = q := by simp [split]
  rw [whole, List.length_append, List.length_singleton, Nat.add_assoc, Nat.add_comm 1] at cut
  rw [position, valueAt]
  exact ⟨by simp, cut⟩

section Query

variable (n : Text) (first : HttpNameValue) (others : List HttpNameValue) (assigned : '=' ∉ n) (clean : '&' ∉ n)
  (legal : ∀ pair ∈ first :: others, pair.Legal)
include assigned clean legal

theorem later_value :
    match others.find? (fun other => n = other.name) with
    | some later =>
        find ('&' :: (n ++ ['='])) ('?' :: renderQuery (first :: others)) 0 ≠ none ∧
          valueAt ('?' :: renderQuery (first :: others)) (n ++ ['='])
            (find ('&' :: (n ++ ['='])) ('?' :: renderQuery (first :: others)) 0) = later.value
    | none => find ('&' :: (n ++ ['='])) ('?' :: renderQuery (first :: others)) 0 = none := by
  have pastMark : Absent ('&' :: (n ++ ['='])) ['?'] (renderQuery (first :: others)) := by
    refine ⟨fun here => ?_, trivial⟩
    simp [List.cons_prefix_cons] at here
  have later := find_later n first others (0 + ['?'].length) assigned legal
  cases named : others.find? (fun other => n = other.name) with
  | some pair =>
      rw [named] at later
      exact value_at_found n _ _ '&' clean (found_behind '&' n ['?'] _ _ 0 pastMark later)
  | none =>
      rw [named] at later
      exact (find_absent _ ['?'] _ 0 pastMark).trans later

theorem question_value :
    valueAt ('?' :: renderQuery (first :: others)) (n ++ ['='])
        (find ('?' :: (n ++ ['='])) ('?' :: renderQuery (first :: others)) 0) =
      if n = first.name then first.value else behind ('?' :: (n ++ ['='])) (first :: others) := by
  by_cases same : n = first.name
  · rw [if_pos same]
    exact (value_at_found n _ _ '?' clean (found_first n first others '?' 0 (legal first (by simp)) same)).2
  · have notFirst := mt (name_behind_mark n first others '?' assigned (legal first (by simp))).mp same
    rw [if_neg same]
    rcases find_stray n first others (0 + ['?'].length) clean legal with ⟨none_, empty⟩ | stray
    · have nowhere : find ('?' :: (n ++ ['='])) ('?' :: renderQuery (first :: others)) 0 = none :=
        (find_absent _ ['?'] _ 0 ⟨notFirst, trivial⟩).trans none_
      rw [nowhere, empty]
      rfl
    · exact (value_at_found n _ _ '?' clean (found_behind '?' n ['?'] _ _ 0 ⟨notFirst, trivial⟩ stray)).2

theorem http_get_value_of_name_query (some_ : n ≠ []) :
    httpGetValueOfName ('?' :: renderQuery (first :: others)) n = some (searched n first others) := by
  have last := List.getLast?_eq_some_getLast some_
  have other : n.getLast some_ ≠ '=' := fun same => assigned (same ▸ List.getLast_mem some_)
  have later := later_value n first others assigned clean legal
  rw [httpGetValueOfName, last]
  simp only [if_pos other]
  congr 1
  cases named : others.find? (fun other => n = other.name) with
  | some pair =>
      rw [named] at later
      obtain ⟨here, value⟩ := later
      obtain ⟨place, position⟩ := Option.ne_none_iff_exists'.mp here
      rw [position] at value
      rw [position, Option.some_or, value, searched, named]
  | none =>
      rw [named] at later
      rw [later, Option.none_or, searched, named]
      exact question_value n first others assigned clean legal

end Query

def firstValue (n : Text) (pairs : List HttpNameValue) : Text :=
  match pairs.find? (fun pair => cString pair.name = cString n) with
  | some pair => pair.value
  | none => []

def parsedValue (n query : Text) : Text :=
  match getValueOf [] n (parseHTTP [] query) with
  | (true, value) => value
  | (false, _) => []

structure SearchAgrees (n : Text) (first : HttpNameValue) (others : List HttpNameValue) : Prop where
  asked : n ≠ []
  again : ∀ later, others.find? (fun other => n = other.name) = some later → later.value = firstValue n (first :: others)
  inside : (∀ pair ∈ first :: others, n ≠ pair.name) →
    behind ('?' :: (n ++ ['='])) (first :: others) = firstValue n (first :: others)

theorem searched_iff (n : Text) (first : HttpNameValue) (others : List HttpNameValue) (asked : n ≠ []) :
    searched n first others = firstValue n (first :: others) ↔ SearchAgrees n first others := by
  cases named : others.find? (fun other => n = other.name) with
  | some later =>
      have same : n = later.name := by simpa using List.find?_some named
      have member := List.mem_cons_of_mem first (List.mem_of_find?_eq_some named)
      rw [searched, named]
      constructor
      · intro value
        refine ⟨asked, fun pair found => ?_, fun nowhere => absurd same (nowhere later member)⟩
        obtain rfl : later = pair := Option.some.inj (named.symm.trans found)
        exact value
      · intro agrees
        exact agrees.again later named
  | none =>
      have nobody : ∀ pair ∈ others, n ≠ pair.name := by simpa using named
      rw [searched, named]
      by_cases same : n = first.name
      · have here : firstValue n (first :: others) = first.value := by simp [firstValue, same]
        rw [if_pos same, here]
        refine ⟨fun _ => ⟨asked, by simp [named], fun nowhere => absurd same (nowhere first (by simp))⟩, fun _ => rfl⟩
      · rw [if_neg same]
        constructor
        · intro value
          exact ⟨asked, by simp [named], fun _ => value⟩
        · intro agrees
          refine agrees.inside fun pair member => ?_
          cases List.mem_cons.mp member with
          | inl head => exact head ▸ same
          | inr behind => exact nobody pair behind

theorem parsed_value_query (n : Text) (first : HttpNameValue) (others : List HttpNameValue)
    (legal : ∀ pair ∈ first :: others, pair.Legal) :
    parsedValue n (renderQuery (first :: others)) = firstValue n (first :: others) := by
  rw [parsedValue, parse_from_pairs [] first others legal, List.nil_append, get_value_of_first, firstValue]
  cases (first :: others).find? (fun pair => cString pair.name = cString n) with
  | none => rfl
  | some pair => rfl

theorem text_search_agrees_iff (n : Text) (first : HttpNameValue) (others : List HttpNameValue)
    (cleanName : '=' ∉ n ∧ '&' ∉ n)
    (legal : ∀ pair ∈ first :: others, '=' ∉ pair.name ∧ '&' ∉ pair.name ∧ '&' ∉ pair.value) :
    httpGetValueOfName ('?' :: renderQuery (first :: others)) n = some (parsedValue n (renderQuery (first :: others))) ↔
      SearchAgrees n first others := by
  have allLegal : ∀ pair ∈ first :: others, pair.Legal := fun pair member =>
    ⟨(legal pair member).1, (legal pair member).2.1, (legal pair member).2.2⟩
  by_cases asked : n = []
  · constructor
    · intro same
      simp [asked, httpGetValueOfName] at same
    · intro agrees
      exact absurd asked agrees.asked
  · rw [http_get_value_of_name_query n first others cleanName.1 cleanName.2 allLegal asked, parsed_value_query n first others allLegal,
      Option.some.injEq]
    exact searched_iff n first others asked

theorem text_search_later_pair :
    httpGetValueOfName ('?' :: renderQuery [⟨['a'], ['1']⟩, ⟨['n'], ['2']⟩]) ['n'] = some ['2'] ∧
      parsedValue ['n'] (renderQuery [⟨['a'], ['1']⟩, ⟨['n'], ['2']⟩]) = ['2'] := by
  have parsed : parsedValue ['n'] (renderQuery [⟨['a'], ['1']⟩, ⟨['n'], ['2']⟩]) = ['2'] := by decide +kernel
  have agrees : SearchAgrees ['n'] ⟨['a'], ['1']⟩ [⟨['n'], ['2']⟩] := by
    refine ⟨by decide, fun later found => ?_, fun nowhere => absurd rfl (nowhere ⟨['n'], ['2']⟩ (by simp))⟩
    obtain rfl : (⟨['n'], ['2']⟩ : HttpNameValue) = later := Option.some.inj found
    rfl
  rw [← parsed]
  exact ⟨(text_search_agrees_iff ['n'] ⟨['a'], ['1']⟩ [⟨['n'], ['2']⟩] (by decide) (by decide)).mpr agrees, rfl⟩

theorem text_search_differs :
    httpGetValueOfName ('?' :: renderQuery [⟨['n'], ['1']⟩, ⟨['n'], ['2']⟩]) ['n'] ≠
      some (parsedValue ['n'] (renderQuery [⟨['n'], ['1']⟩, ⟨['n'], ['2']⟩])) := by
  decide

end Libx.Http

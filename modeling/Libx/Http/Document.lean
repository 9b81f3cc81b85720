import Libx.Http.Search

set_option autoImplicit false

namespace Libx.Http

open Search

-- What the references hand out; userIP and seqNum are the fields 49 and 34 of the path.
structure Outputs where
  httpRequest : Text
  httpPath : Text
  httpQuery : Text
  userIP : Text
  seqNum : Text
  httpCmds : List Text
  nameValues : List HttpNameValue
deriving DecidableEq, Repr

def Outputs.empty : Outputs := ⟨[], [], [], [], [], [], []⟩

def requestOf (strHttp : Text) : Text :=
  if ['G', 'E', 'T', ' '] <+: strHttp then between strHttp 4 (find [' '] strHttp 4)
  else if ['P', 'O', 'S', 'T', ' '] <+: strHttp then between strHttp 5 (find [' '] strHttp 5)
  else if ['H', 'E', 'A', 'D', ' '] <+: strHttp then between strHttp 5 (find [' '] strHttp 5)
  else if ['T', 'R', 'A', 'C', 'E', ' '] <+: strHttp then between strHttp 5 (find [' '] strHttp 5)
  else strHttp

-- rStr.find_first_of( set, pos ).
def findFirstOf (set text : Text) (pos : Nat) : Option Nat := findOfFrom set (text.drop pos) pos

def cutField (what httpPath value lStrHttp : Text) : Text × Text :=
  match find what httpPath 0 with
  | some pos =>
      let eomatch := findFirstOf [' ', '/'] httpPath (pos + 1)
      (between httpPath (pos + 4) eomatch, eomatch.elim ['/'] httpPath.drop)
  | none => (value, lStrHttp)

def front (text : Text) : Char := text.headD '\x00'

-- The loop over lStrHttp and the push_back behind it.
def pushCmds (lStrHttp : Text) : List Text :=
  match _found : findFirstOf [' ', '/', '?'] lStrHttp 1 with
  | some posSep =>
      lStrHttp.take posSep :: if front (lStrHttp.drop posSep) = '?' then [] else pushCmds (lStrHttp.drop posSep)
  | none => if front lStrHttp ≠ '?' then [lStrHttp] else []
termination_by lStrHttp.length
decreasing_by
  obtain ⟨lower, upper⟩ := find_of_bounds _ _ _ _ _found
  rw [List.length_drop] at upper ⊢
  omega

def extractDocument (outputs : Outputs) (strHttp : Text) : Outputs :=
  let httpRequest := requestOf strHttp
  let pos := findFirstOf ['?'] httpRequest 0
  let httpPath := pos.elim httpRequest httpRequest.take
  let httpQuery := pos.elim outputs.httpQuery httpRequest.drop
  let user := cutField ['/', '4', '9', '='] httpPath outputs.userIP httpRequest
  let seq := cutField ['/', '3', '4', '='] httpPath outputs.seqNum user.2
  { httpRequest := httpRequest
    httpPath := httpPath
    httpQuery := httpQuery
    userIP := user.1
    seqNum := seq.1
    httpCmds := outputs.httpCmds ++ pushCmds seq.2
    nameValues := if httpQuery = [] then outputs.nameValues else parseHTTP outputs.nameValues httpQuery.tail }

inductive Method where
  | get
  | post
  | head
  | trace
deriving DecidableEq, Repr

def Method.text : Method → Text
  | .get => ['G', 'E', 'T']
  | .post => ['P', 'O', 'S', 'T']
  | .head => ['H', 'E', 'A', 'D']
  | .trace => ['T', 'R', 'A', 'C', 'E']

theorem request_of_method (method : Method) (uri tail : Text) (spaceless : ' ' ∉ uri) (stops : StopsAt ' ' tail) :
    requestOf (method.text ++ ' ' :: (uri ++ tail)) = if method = .trace then [] else uri := by
  have cut (front : Text) : between (front ++ (uri ++ tail)) front.length (find [' '] (front ++ (uri ++ tail)) front.length) = uri :=
    between_cut ' ' front [] uri tail spaceless stops
  cases method with
  | get => exact (if_pos ⟨uri ++ tail, rfl⟩).trans (cut ['G', 'E', 'T', ' '])
  | post =>
      simp only [requestOf, Method.text, List.cons_append, List.nil_append, List.cons_prefix_cons]
      exact cut ['P', 'O', 'S', 'T', ' ']
  | head =>
      simp only [requestOf, Method.text, List.cons_append, List.nil_append, List.cons_prefix_cons]
      exact cut ['H', 'E', 'A', 'D', ' ']
  | trace =>
      have here : find [' '] (['T', 'R', 'A', 'C', 'E'] ++ ' ' :: (uri ++ tail)) 5 = some 5 :=
        find_here [' '] (' ' :: (uri ++ tail)) 5 ⟨uri ++ tail, rfl⟩
      simp only [requestOf, Method.text]
      rw [here]
      simp [between]

theorem path_and_query (path query : Text) (clean : '?' ∉ path) (stops : StopsAt '?' query) :
    findFirstOf ['?'] (path ++ query) 0 = if query = [] then none else some path.length := by
  have outside : ∀ c ∈ path, c ∉ ['?'] := by
    intro c member same
    exact clean (List.mem_singleton.mp same ▸ member)
  rw [findFirstOf, List.drop_zero, find_of_past _ path query 0 outside, Nat.zero_add]
  rcases stops with rfl | ⟨back, rfl⟩
  · simp [findOfFrom]
  · simp [findOfFrom]

section Document

variable (outputs : Outputs) (strHttp path query : Text) (request : requestOf strHttp = path ++ query) (clean : '?' ∉ path)
  (stops : StopsAt '?' query)
include request clean stops

theorem document_request :
    (extractDocument outputs strHttp).httpRequest = path ++ query ∧ (extractDocument outputs strHttp).httpPath = path ∧
      (extractDocument outputs strHttp).httpQuery = if query = [] then outputs.httpQuery else query := by
  have pos := path_and_query path query clean stops
  by_cases none_ : query = []
  · rw [if_pos none_] at pos
    simp only [extractDocument, request, pos, Option.elim_none, if_pos none_]
    simp [none_]
  · rw [if_neg none_] at pos
    simp [extractDocument, request, pos, none_]

theorem document_fields :
    (extractDocument outputs strHttp).userIP = (cutField ['/', '4', '9', '='] path outputs.userIP (path ++ query)).1 ∧
      (extractDocument outputs strHttp).seqNum = (cutField ['/', '3', '4', '='] path outputs.seqNum
        (cutField ['/', '4', '9', '='] path outputs.userIP (path ++ query)).2).1 ∧
      (extractDocument outputs strHttp).httpCmds = outputs.httpCmds ++ pushCmds (cutField ['/', '3', '4', '='] path outputs.seqNum
        (cutField ['/', '4', '9', '='] path outputs.userIP (path ++ query)).2).2 ∧
      (extractDocument outputs strHttp).nameValues =
        if query = [] ∧ outputs.httpQuery = [] then outputs.nameValues
        else parseHTTP outputs.nameValues (if query = [] then outputs.httpQuery else query).tail := by
  have pos := path_and_query path query clean stops
  by_cases none_ : query = []
  · rw [if_pos none_] at pos
    subst none_
    rw [List.append_nil] at request pos
    simp [extractDocument, request, pos]
  · rw [if_neg none_] at pos
    simp [extractDocument, request, pos, none_]

theorem document_commands (absent : ¬ ['/', '4', '9', '='] <:+: path ∧ ¬ ['/', '3', '4', '='] <:+: path) :
    (extractDocument outputs strHttp).httpCmds = outputs.httpCmds ++ pushCmds (path ++ query) ∧
      (extractDocument outputs strHttp).nameValues =
        if query = [] ∧ outputs.httpQuery = [] then outputs.nameValues
        else parseHTTP outputs.nameValues (if query = [] then outputs.httpQuery else query).tail := by
  have untouched (what value lStrHttp : Text) (missing : ¬ what <:+: path) :
      cutField what path value lStrHttp = (value, lStrHttp) := by
    rw [cutField, find, List.drop_zero, (find_none_iff what path 0).mpr missing]
  obtain ⟨-, -, commands, nameValues⟩ := document_fields outputs strHttp path query request clean stops
  rw [untouched _ _ _ absent.1, untouched _ _ _ absent.2] at commands
  exact ⟨commands, nameValues⟩

end Document

theorem request_target_iff (method : Method) (uri rest : Text) (outputs : Outputs) (some_ : uri ≠ []) (spaceless : ' ' ∉ uri) :
    ((extractDocument outputs (method.text ++ ' ' :: (uri ++ ' ' :: rest))).httpRequest = uri ∧
        (extractDocument outputs (method.text ++ ' ' :: (uri ++ ' ' :: rest))).httpPath ++
          (extractDocument outputs (method.text ++ ' ' :: (uri ++ ' ' :: rest))).httpQuery = uri ∧
        '?' ∉ (extractDocument outputs (method.text ++ ' ' :: (uri ++ ' ' :: rest))).httpPath) ↔
      method ≠ .trace ∧ ('?' ∈ uri ∨ outputs.httpQuery = []) := by
  have request := request_of_method method uri (' ' :: rest) spaceless (.inr ⟨rest, rfl⟩)
  by_cases trace : method = .trace
  · rw [if_pos trace] at request
    have empty := (document_request outputs _ [] [] request (by simp) (.inl rfl)).1
    rw [empty]
    simp [trace, some_.symm]
  · obtain ⟨path, query, split, clean, stops⟩ := split_at_mark '?' uri
    subst split
    rw [if_neg trace] at request
    obtain ⟨whole, first, second⟩ := document_request outputs _ path query request clean stops
    rw [whole, first, second]
    by_cases none_ : query = []
    · simp [none_, trace, clean]
    · obtain ⟨back, rfl⟩ := stops.resolve_left none_
      simp [trace, clean]

theorem request_target_get :
    let document := extractDocument .empty (Method.text .get ++ ' ' :: (['/', '?', 'a'] ++ ' ' :: []))
    document.httpRequest = ['/', '?', 'a'] ∧ document.httpPath = ['/'] ∧ document.httpQuery = ['?', 'a'] := by
  intro document
  obtain ⟨request, whole, clean⟩ := (request_target_iff .get ['/', '?', 'a'] [] .empty (by decide) (by decide)).mpr ⟨by decide, .inl (by decide)⟩
  have path : document.httpPath = ['/'] := by decide
  have query : ['/'] ++ document.httpQuery = ['/', '?', 'a'] := by
    rw [← path]
    exact whole
  exact ⟨request, path, List.append_cancel_left query⟩

theorem trace_target_lost :
    (extractDocument .empty (Method.text .trace ++ ' ' :: (['/', 'a'] ++ ' ' :: []))).httpRequest ≠ ['/', 'a'] := by
  decide

theorem push_cmds_end (lStrHttp : Text) (found : findFirstOf [' ', '/', '?'] lStrHttp 1 = none) :
    pushCmds lStrHttp = if front lStrHttp ≠ '?' then [lStrHttp] else [] := by
  rw [pushCmds]
  split
  next posSep other => simp [found] at other
  next => rfl

theorem push_cmds_next (lStrHttp : Text) (posSep : Nat) (found : findFirstOf [' ', '/', '?'] lStrHttp 1 = some posSep) :
    pushCmds lStrHttp =
      lStrHttp.take posSep :: if front (lStrHttp.drop posSep) = '?' then [] else pushCmds (lStrHttp.drop posSep) := by
  rw [pushCmds]
  split
  next other same => rw [← Option.some.inj (found.symm.trans same)]
  next other => simp [found] at other

def IsCommand (cmd : Text) : Prop := ∃ segment, cmd = '/' :: segment ∧ '/' ∉ segment ∧ '?' ∉ segment

theorem push_cmds_path (path query : Text) (spaceless : ' ' ∉ path) (clean : '?' ∉ path) (stops : StopsAt '?' query) :
    (pushCmds ('/' :: path ++ query)).flatten = '/' :: path ∧ ∀ cmd ∈ pushCmds ('/' :: path ++ query), IsCommand cmd := by
  induction size : path.length using Nat.strongRecOn generalizing path with
  | ind size ih =>
      subst size
      obtain ⟨segment, more, rfl, slashless, next⟩ := split_at_mark '/' path
      simp only [List.mem_append, not_or] at spaceless clean
      have command : IsCommand ('/' :: segment) := ⟨segment, rfl, slashless, clean.1⟩
      have outside : ∀ c ∈ segment, c ∉ [' ', '/', '?'] := by
        intro c member same
        simp only [List.mem_cons, List.not_mem_nil, or_false] at same
        rcases same with rfl | rfl | rfl
        · exact spaceless.1 member
        · exact slashless member
        · exact clean.1 member
      have found : findFirstOf [' ', '/', '?'] ('/' :: (segment ++ more) ++ query) 1 =
          findOfFrom [' ', '/', '?'] (more ++ query) (1 + segment.length) := by
        rw [findFirstOf, List.cons_append, List.drop_one, List.tail_cons, List.append_assoc, find_of_past _ segment _ 1 outside]
      have position : 1 + segment.length = ('/' :: segment).length := Nat.add_comm _ _
      have whole : '/' :: (segment ++ more) ++ query = ('/' :: segment) ++ (more ++ query) := by simp
      rcases next with rfl | ⟨back, rfl⟩
      · rcases stops with rfl | ⟨rest, rfl⟩
        · rw [push_cmds_end _ (by simpa [findOfFrom] using found)]
          simp [front, command]
        · rw [push_cmds_next _ (1 + segment.length) (by simpa [findOfFrom] using found), whole, position, List.take_left,
            List.drop_left]
          simp [front, command]
      · obtain ⟨flat, commands⟩ := ih back.length (by simp; omega) back (by simpa using spaceless.2)
          (by simpa using clean.2) rfl
        rw [push_cmds_next _ (1 + segment.length) (by simpa [findOfFrom] using found), whole, position, List.take_left,
          List.drop_left, if_neg (by simp [front])]
        refine ⟨by rw [List.flatten_cons, flat]; rfl, fun cmd member => ?_⟩
        cases List.mem_cons.mp member with
        | inl same => exact same ▸ command
        | inr later => exact commands cmd later

theorem path_decomposed (method : Method) (uri tail : Text) (known : method ≠ .trace) (rooted : uri.head? = some '/')
    (spaceless : ' ' ∉ uri) (stops : StopsAt ' ' tail)
    (absent : ¬ ['/', '4', '9', '='] <:+: uri.takeWhile (· ≠ '?') ∧ ¬ ['/', '3', '4', '='] <:+: uri.takeWhile (· ≠ '?')) :
    (extractDocument .empty (method.text ++ ' ' :: (uri ++ tail))).httpCmds.flatten = uri.takeWhile (· ≠ '?') ∧
      (∀ cmd ∈ (extractDocument .empty (method.text ++ ' ' :: (uri ++ tail))).httpCmds, IsCommand cmd) ∧
      (extractDocument .empty (method.text ++ ' ' :: (uri ++ tail))).nameValues =
        if '?' ∈ uri then parseHTTP [] (uri.dropWhile (· ≠ '?')).tail else [] := by
  have request := request_of_method method uri tail spaceless stops
  obtain ⟨clean, ends⟩ := until_mark '?' uri
  have parts : uri.takeWhile (· ≠ '?') ++ uri.dropWhile (· ≠ '?') = uri := List.takeWhile_append_dropWhile
  rw [if_neg known, ← parts] at request
  obtain ⟨commands, nameValues⟩ := document_commands .empty _ _ _ request clean ends absent
  have slash : uri.takeWhile (· ≠ '?') = '/' :: (uri.takeWhile (· ≠ '?')).tail := by
    cases uri with
    | nil => simp at rooted
    | cons c rest =>
        obtain rfl : c = '/' := Option.some.inj rooted
        rfl
  have spaceless_ : ' ' ∉ (uri.takeWhile (· ≠ '?')).tail := fun member =>
    spaceless ((List.takeWhile_sublist _).subset (List.mem_of_mem_tail member))
  have decomposed := push_cmds_path _ _ spaceless_ (fun member => clean (List.mem_of_mem_tail member)) ends
  rw [← slash] at decomposed
  rw [parts] at commands nameValues decomposed
  rw [commands, Outputs.empty, List.nil_append]
  refine ⟨decomposed.1, decomposed.2, ?_⟩
  rw [Outputs.empty] at nameValues
  rw [nameValues]
  by_cases asked : '?' ∈ uri
  · have some_ := mt (nothing_left_iff '?' uri).mp (not_not.mpr asked)
    simp only [some_, asked, false_and, if_false, if_true]
  · have none_ := (nothing_left_iff '?' uri).mpr asked
    simp only [none_, asked, true_and, if_false, if_true]

theorem path_decomposed_segments :
    (extractDocument .empty (Method.text .get ++ ' ' :: ("/a//b?x=/1".toList ++ " HTTP/1.1".toList))).httpCmds.flatten =
        "/a//b?x=/1".toList.takeWhile (· ≠ '?') ∧
      (∀ cmd ∈ (extractDocument .empty (Method.text .get ++ ' ' :: ("/a//b?x=/1".toList ++ " HTTP/1.1".toList))).httpCmds,
        IsCommand cmd) ∧
      (extractDocument .empty (Method.text .get ++ ' ' :: ("/a//b?x=/1".toList ++ " HTTP/1.1".toList))).nameValues =
        if '?' ∈ "/a//b?x=/1".toList then parseHTTP [] ("/a//b?x=/1".toList.dropWhile (· ≠ '?')).tail else [] :=
  path_decomposed .get "/a//b?x=/1".toList " HTTP/1.1".toList (by decide) (by decide) (by decide)
    (.inr ⟨"HTTP/1.1".toList, rfl⟩) ⟨by decide, by decide⟩

end Libx.Http

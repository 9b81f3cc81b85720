import Libx.Text
import Libx.Lib.Search

set_option autoImplicit false

namespace Libx.Http

structure HttpNameValue where
  name : Text
  value : Text
deriving DecidableEq, Repr

-- The while of ParseHTTP over the text from Tmp on; `token` is what lies between Debut and Tmp.
def parseFrom (rVect : List HttpNameValue) (lNameValue : HttpNameValue) (bAssignmentFound : Bool) (token : Text) :
    Text → List HttpNameValue
  | [] => rVect ++ [{ lNameValue with value := token }]
  | c :: rest =>
      if c = '=' then
        if bAssignmentFound = false then parseFrom rVect { lNameValue with name := token } true [] rest
        else parseFrom rVect lNameValue bAssignmentFound (token ++ [c]) rest
      else if c = '&' then parseFrom (rVect ++ [{ lNameValue with value := token }]) ⟨[], []⟩ false [] rest
      else parseFrom rVect lNameValue bAssignmentFound (token ++ [c]) rest

-- ParseHTTP on the Len characters at pMsg.
def parseHTTP (rVect : List HttpNameValue) (msg : Text) : List HttpNameValue := parseFrom rVect ⟨[], []⟩ false [] msg

-- GetValueOf; rValue keeps its old text where it returns false.
def getValueOf (rValue pName : Text) : List HttpNameValue → Bool × Text
  | [] => (false, rValue)
  | pair :: rest => if cString pair.name = cString pName then (true, pair.value) else getValueOf rValue pName rest

-- operator(), for a T with the attribute name and set_data given.
def visit {T : Type} (getAttribut : Text) (setData : Text → T → T) (rT : T) : List HttpNameValue → T
  | [] => rT
  | pair :: rest => if cString pair.name = cString getAttribut then setData pair.name rT else visit getAttribut setData rT rest

def HttpNameValue.rendered (pair : HttpNameValue) : Text := pair.name ++ '=' :: pair.value

structure HttpNameValue.Legal (pair : HttpNameValue) : Prop where
  noAssignment : '=' ∉ pair.name
  noSeparator : '&' ∉ pair.name
  clean : '&' ∉ pair.value

def renderQuery (pairs : List HttpNameValue) : Text := ['&'].intercalate (pairs.map HttpNameValue.rendered)

def queryTail (rest : List HttpNameValue) : Text := if rest = [] then [] else '&' :: renderQuery rest

theorem query_tail_more (next : HttpNameValue) (rest : List HttpNameValue) :
    queryTail (next :: rest) = '&' :: renderQuery (next :: rest) := if_neg (by simp)

theorem query_tail_stops (rest : List HttpNameValue) : Search.StopsAt '&' (queryTail rest) := by
  cases rest with
  | nil => exact .inl rfl
  | cons next rest => exact .inr ⟨_, query_tail_more next rest⟩

theorem render_query_cons (pair : HttpNameValue) (rest : List HttpNameValue) :
    renderQuery (pair :: rest) = pair.rendered ++ queryTail rest := by
  cases rest with
  | nil => simp [renderQuery, queryTail]
  | cons next rest => simp [renderQuery, queryTail, List.intercalate_cons_cons]

theorem rendered_clean (pair : HttpNameValue) (legal : pair.Legal) : '&' ∉ pair.rendered := by
  simp [HttpNameValue.rendered, legal.noSeparator, legal.clean]

theorem parse_from_plain (rVect : List HttpNameValue) (lNameValue : HttpNameValue) (found : Bool) (token front back : Text)
    (plain : ∀ c ∈ front, c ≠ '&' ∧ (c = '=' → found = true)) :
    parseFrom rVect lNameValue found token (front ++ back) = parseFrom rVect lNameValue found (token ++ front) back := by
  induction front generalizing token with
  | nil => rw [List.nil_append, List.append_nil]
  | cons c front ih =>
      obtain ⟨noEnd, assigned⟩ := plain c (by simp)
      have later := ih (token ++ [c]) fun d member => plain d (by simp [member])
      rw [List.cons_append, parseFrom, if_neg noEnd, later, List.append_assoc, List.singleton_append]
      by_cases equal : c = '='
      · rw [if_pos equal, if_neg (by simp [assigned equal])]
      · rw [if_neg equal]

theorem parse_from_pair (rVect : List HttpNameValue) (pair : HttpNameValue) (back : Text) (legal : pair.Legal) :
    parseFrom rVect ⟨[], []⟩ false [] (pair.rendered ++ back) = parseFrom rVect ⟨pair.name, []⟩ true pair.value back := by
  have name := parse_from_plain rVect ⟨[], []⟩ false [] pair.name ('=' :: (pair.value ++ back)) fun c member =>
    ⟨fun same => legal.noSeparator (same ▸ member), fun same => absurd (same ▸ member) legal.noAssignment⟩
  have value := parse_from_plain rVect ⟨pair.name, []⟩ true [] pair.value back fun c member =>
    ⟨fun same => legal.clean (same ▸ member), fun _ => rfl⟩
  rw [HttpNameValue.rendered, List.append_assoc, List.cons_append, name, parseFrom, if_pos rfl, if_pos rfl, List.nil_append, value,
    List.nil_append]

theorem parse_from_pairs (rVect : List HttpNameValue) (pair : HttpNameValue) (rest : List HttpNameValue)
    (legal : ∀ other ∈ pair :: rest, other.Legal) : parseHTTP rVect (renderQuery (pair :: rest)) = rVect ++ pair :: rest := by
  induction rest generalizing rVect pair with
  | nil =>
      rw [parseHTTP, render_query_cons, parse_from_pair rVect pair _ (legal pair (by simp))]
      rfl
  | cons next rest ih =>
      rw [parseHTTP, render_query_cons, query_tail_more, parse_from_pair rVect pair _ (legal pair (by simp)), parseFrom,
        if_neg (by decide), if_pos rfl, ← parseHTTP, ih (rVect ++ [pair]) next fun other member => legal other (List.mem_cons_of_mem pair member)]
      simp

theorem parse_http_undoes_rendering (rVect pairs : List HttpNameValue) (some_ : pairs ≠ [])
    (legal : ∀ pair ∈ pairs, '=' ∉ pair.name ∧ '&' ∉ pair.name ∧ '&' ∉ pair.value) :
    parseHTTP rVect (renderQuery pairs) = rVect ++ pairs := by
  obtain ⟨pair, rest, rfl⟩ := List.exists_cons_of_ne_nil some_
  refine parse_from_pairs rVect pair rest fun other member => ?_
  obtain ⟨noAssignment, noSeparator, clean⟩ := legal other member
  exact ⟨noAssignment, noSeparator, clean⟩

theorem parse_http_two_pairs :
    parseHTTP [] (renderQuery [⟨['a'], "x=y".toList⟩, ⟨[], []⟩]) = [] ++ [⟨['a'], "x=y".toList⟩, ⟨[], []⟩] :=
  parse_http_undoes_rendering [] [⟨['a'], "x=y".toList⟩, ⟨[], []⟩] (by simp) (by decide)

theorem get_value_of_first (rValue pName : Text) (pairs : List HttpNameValue) :
    getValueOf rValue pName pairs =
      match pairs.find? (fun pair => cString pair.name = cString pName) with
      | some pair => (true, pair.value)
      | none => (false, rValue) := by
  induction pairs with
  | nil => rfl
  | cons pair rest ih =>
      by_cases same : cString pair.name = cString pName
      · simp [getValueOf, same]
      · simp [getValueOf, same, ih]

theorem visit_first {T : Type} (getAttribut : Text) (setData : Text → T → T) (rT : T) (pairs : List HttpNameValue) :
    visit getAttribut setData rT pairs =
      match pairs.find? (fun pair => cString pair.name = cString getAttribut) with
      | some pair => setData pair.name rT
      | none => rT := by
  induction pairs with
  | nil => rfl
  | cons pair rest ih =>
      by_cases same : cString pair.name = cString getAttribut
      · simp [visit, same]
      · simp [visit, same, ih]

def Agrees (T : Type) (a : Text) (setData : Text → T → T) (rT : T) (rValue : Text) (pairs : List HttpNameValue) : Prop :=
  visit a setData rT pairs =
    match getValueOf rValue a pairs with
    | (true, value) => setData value rT
    | (false, _) => rT

theorem find_without_null (a : Text) (pairs : List HttpNameValue) (cleanName : '\x00' ∉ a)
    (clean : ∀ pair ∈ pairs, '\x00' ∉ pair.name) :
    pairs.find? (fun pair => cString pair.name = cString a) = pairs.find? fun pair => pair.name = a := by
  induction pairs with
  | nil => rfl
  | cons pair rest ih =>
      rw [List.find?_cons, List.find?_cons, c_string_whole a cleanName, c_string_whole pair.name (clean pair (by simp)),
        ← c_string_whole a cleanName, ih fun other member => clean other (List.mem_cons_of_mem pair member)]
      rw [c_string_whole a cleanName]

theorem accessors_agree_iff (a : Text) (pairs : List HttpNameValue) (cleanName : '\x00' ∉ a)
    (clean : ∀ pair ∈ pairs, '\x00' ∉ pair.name ∧ '\x00' ∉ pair.value) :
    (∀ (T : Type) (setData : Text → T → T) (rT : T) (rValue : Text), Agrees T a setData rT rValue pairs) ↔
      ∀ pair, pairs.find? (fun pair => pair.name = a) = some pair → pair.value = a := by
  have exact_ := find_without_null a pairs cleanName fun pair member => (clean pair member).1
  simp only [Agrees, visit_first, get_value_of_first, exact_]
  constructor
  · intro agree pair found
    have name : pair.name = a := by simpa using List.find?_some found
    have stored := agree Text (fun text _ => text) [] []
    simp only [found] at stored
    exact stored.symm.trans name
  · intro same T setData rT rValue
    cases found : pairs.find? (fun pair => pair.name = a) with
    | none => rfl
    | some pair =>
        have name : pair.name = a := by simpa using List.find?_some found
        simp only [same pair found, name]

theorem accessors_agree_same_value :
    getValueOf [] ['a'] [⟨['a'], ['a']⟩, ⟨['a'], ['1']⟩] = (true, ['a']) ∧
      ∀ (T : Type) (setData : Text → T → T) (rT : T), visit ['a'] setData rT [⟨['a'], ['a']⟩, ⟨['a'], ['1']⟩] = setData ['a'] rT := by
  have agree := (accessors_agree_iff ['a'] [⟨['a'], ['a']⟩, ⟨['a'], ['1']⟩] (by decide) (by decide)).mpr fun pair found => by
    obtain rfl : (⟨['a'], ['a']⟩ : HttpNameValue) = pair := Option.some.inj found
    rfl
  exact ⟨by decide, fun T setData rT => agree T setData rT []⟩

theorem visit_stores_name : ¬ Agrees Text ['a'] (fun text _ => text) [] [] [⟨['a'], ['1']⟩] := by
  unfold Agrees
  decide

end Libx.Http

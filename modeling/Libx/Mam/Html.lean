import Libx.Text
import Libx.Lib.Nesting

set_option autoImplicit false

namespace Libx.Mam.Html

open Nesting

-- The classes that derive from html, with the strings and children that their gett uses.
inductive Element where
  | textasis (name : Text)
  | h (n : Int) (name : Text) (htmls : List Element)
  | div (htmls : List Element)
  | tr (htmls : List Element)
  | td (htmls : List Element)
  | br
  | form (action : Text) (htmls : List Element)
  | label (name for_ : Text) (htmls : List Element)
  | input (type name value other : Text) (required : Bool)
  | select (name : Text) (values : List (Text × Text))
  | fieldset (legend : Text) (htmls : List Element)

structure Page where
  name : Text
  htmls : List Element

def numberText : Int → Text
  | .ofNat n => Nat.toDigits 10 n
  | .negSucc n => '-' :: Nat.toDigits 10 (n + 1)

def optional (before value after : Text) : Text := if value = [] then [] else before ++ value ++ after

-- gett of each class, over what the children write.
def hGett (n : Int) (name inside : Text) : Text :=
  "<h".toList ++ numberText n ++ ">".toList ++ (name ++ inside) ++ ("</h".toList ++ numberText n ++ ">".toList)

def divGett (inside : Text) : Text := "<div>".toList ++ inside ++ "</div>".toList
def trGett (inside : Text) : Text := "<tr>".toList ++ inside ++ "</tr>".toList
def tdGett (inside : Text) : Text := "<td>".toList ++ inside ++ "</td>".toList
def brGett : Text := "<br>".toList

def formGett (action inside : Text) : Text :=
  "<form action='".toList ++ action ++ "' method='get' accept-charset='UTF-8'>".toList ++ inside ++ "</form>".toList

def labelGett (name for_ inside : Text) : Text :=
  "<label ".toList ++ optional "for='".toList for_ "'".toList ++ ">".toList ++ (inside ++ name) ++ "</label>".toList

def inputAttributes (type name value other : Text) (required : Bool) : Text :=
  (if required then "required ".toList else []) ++ ("type='".toList ++ type ++ "' name='".toList ++ name ++ "'".toList) ++
    optional " value='".toList value "'".toList ++ optional " ".toList other []

def inputGett (type name value other : Text) (required : Bool) : Text :=
  "<input ".toList ++ inputAttributes type name value other required ++ " />".toList

def optionGett (it : Text × Text) : Text := "<option value='".toList ++ it.1 ++ "'>".toList ++ it.2 ++ "</option>".toList

def selectGett (name : Text) (values : List (Text × Text)) : Text :=
  "<select name='".toList ++ name ++ "'>".toList ++ values.flatMap optionGett ++ "</select>".toList

def fieldsetGett (legend inside : Text) : Text :=
  "<fieldset>".toList ++ ("<legend>".toList ++ legend ++ "</legend>".toList ++ inside) ++ "</fieldset>".toList

mutual
def Element.gett : Element → Text
  | .textasis name => name
  | .h n name htmls => hGett n name (getts htmls)
  | .div htmls => divGett (getts htmls)
  | .tr htmls => trGett (getts htmls)
  | .td htmls => tdGett (getts htmls)
  | .br => brGett
  | .form action htmls => formGett action (getts htmls)
  | .label name for_ htmls => labelGett name for_ (getts htmls)
  | .input type name value other required => inputGett type name value other required
  | .select name values => selectGett name values
  | .fieldset legend htmls => fieldsetGett legend (getts htmls)
def getts : List Element → Text
  | [] => []
  | it :: htmls => it.gett ++ getts htmls
end

def functions : Text :=
  "var ipa; function getIP(json)\x7b ipa=json.ip; \x7d ".toList ++
    "function setIp()\x7b document.getElementById('00NF000000DAKs6').value=ipa;\x7d ".toList

def headGett (name : Text) : Text :=
  "<head>".toList ++ ("<title>".toList ++ name ++ "</title>".toList ++ ("<script>".toList ++ functions ++ "</script>".toList) ++
    "<script src='https://api.ipify.org?format=jsonp&callback=getIP'></script>".toList) ++ "</head>".toList

def Page.gett (page : Page) : Text :=
  "<!DOCTYPE html>".toList ++ ("<html lang='en'>".toList ++ (headGett page.name ++
    ("<body onload='setIp()'>".toList ++ getts page.htmls ++ "</body>".toList)) ++ "</html>".toList)

mutual
def Element.strings : Element → List Text
  | .textasis name => [name]
  | .h _ name htmls => name :: stringsOf htmls
  | .div htmls => stringsOf htmls
  | .tr htmls => stringsOf htmls
  | .td htmls => stringsOf htmls
  | .br => []
  | .form action htmls => action :: stringsOf htmls
  | .label name for_ htmls => name :: for_ :: stringsOf htmls
  | .input type name value other _ => [type, name, value, other]
  | .select name values => name :: values.flatMap fun it => [it.1, it.2]
  | .fieldset legend htmls => legend :: stringsOf htmls
def stringsOf : List Element → List Text
  | [] => []
  | it :: htmls => it.strings ++ stringsOf htmls
end

def Page.strings (page : Page) : List Text := page.name :: stringsOf page.htmls

def readMarkup : Option Text → Text → Option (List Text)
  | none, [] => some []
  | some _, [] => none
  | none, c :: rest => if c = '<' then readMarkup (some []) rest else if c = '>' then none else readMarkup none rest
  | some inside, c :: rest =>
      if c = '>' then (readMarkup none rest).map (inside :: ·) else if c = '<' then none
      else readMarkup (some (inside ++ [c])) rest

def tagName (inside : Text) : Text := inside.takeWhile (· ≠ ' ')

def ignored : List Text := ["!DOCTYPE".toList, "br".toList, "input".toList]

def tagMark (inside : Text) : Option (Mark Text) :=
  match inside with
  | '/' :: closing => some (.closes (tagName closing))
  | _ => if tagName inside ∈ ignored then none else some (.opens (tagName inside))

def marks (out : Text) : Option (List (Mark Text)) := (readMarkup none out).map (List.filterMap tagMark)

def WellNested (out : Text) : Prop := (marks out).bind (readMarks []) = some []

def Clean (text : Text) : Prop := '<' ∉ text ∧ '>' ∉ text

instance (text : Text) : Decidable (Clean text) := inferInstanceAs (Decidable ('<' ∉ text ∧ '>' ∉ text))

@[simp] theorem clean_nil : Clean [] := by simp [Clean]
@[simp] theorem clean_cons (c : Char) (text : Text) : Clean (c :: text) ↔ (c ≠ '<' ∧ c ≠ '>') ∧ Clean text := by
  simp only [Clean, List.mem_cons, not_or, eq_comm]
  tauto
@[simp] theorem clean_append (text more : Text) : Clean (text ++ more) ↔ Clean text ∧ Clean more := by
  simp only [Clean, List.mem_append, not_or]
  tauto

section Reading

theorem markup_append (mode : Option Text) (out more : Text) (tags : List Text) (read : readMarkup mode out = some tags) :
    readMarkup mode (out ++ more) = (readMarkup none more).map (tags ++ ·) := by
  fun_induction readMarkup mode out generalizing tags with
  | case1 =>
      obtain rfl := Option.some.inj read
      simp
  | case2 inside => cases read
  | case3 out ih => exact ih tags read
  | case4 out => cases read
  | case5 c out opened closed ih =>
      rw [List.cons_append, readMarkup, if_neg opened, if_neg closed]
      exact ih tags read
  | case6 inside out ih =>
      obtain ⟨later, again, rfl⟩ := Option.map_eq_some_iff.mp read
      rw [List.cons_append, readMarkup, if_pos rfl, ih later again, Option.map_map]
      rfl
  | case7 inside out => cases read
  | case8 inside c out closed opened ih =>
      rw [List.cons_append, readMarkup, if_neg closed, if_neg opened]
      exact ih tags read

theorem marks_append (out more : Text) (first second : List (Mark Text)) (one : marks out = some first)
    (other : marks more = some second) : marks (out ++ more) = some (first ++ second) := by
  obtain ⟨tags, read, rfl⟩ := Option.map_eq_some_iff.mp one
  obtain ⟨others, readMore, rfl⟩ := Option.map_eq_some_iff.mp other
  rw [marks, markup_append none out more tags read, readMore]
  simp

theorem markup_inside (inside text rest : Text) (clean : Clean text) :
    readMarkup (some inside) (text ++ '>' :: rest) = (readMarkup none rest).map ((inside ++ text) :: ·) := by
  induction text generalizing inside with
  | nil => simp [readMarkup]
  | cons c text ih =>
      obtain ⟨⟨less, greater⟩, later⟩ := (clean_cons c text).mp clean
      rw [List.cons_append, readMarkup, if_neg greater, if_neg less, ih (inside ++ [c]) later]
      simp

theorem marks_tag (inside : Text) (clean : Clean inside) : marks ('<' :: (inside ++ ['>'])) = some (tagMark inside).toList := by
  have read := markup_inside [] inside [] clean
  rw [marks, readMarkup, if_pos rfl, read]
  cases tagged : tagMark inside with
  | none => simp [readMarkup, tagged]
  | some mark => simp [readMarkup, tagged]

theorem marks_text (text : Text) (clean : Clean text) : marks text = some [] := by
  have read : readMarkup none text = some [] := by
    induction text with
    | nil => rfl
    | cons c text ih =>
        obtain ⟨⟨less, greater⟩, later⟩ := (clean_cons c text).mp clean
        rw [readMarkup, if_neg less, if_neg greater, ih later]
  rw [marks, read]
  rfl

theorem tag_name_passed (name rest : Text) (plain : ' ' ∉ name) : tagName (name ++ rest) = name ++ tagName rest := by
  have passed : ∀ c ∈ name, decide (c ≠ ' ') = true := by
    intro c member
    exact decide_eq_true fun same => plain (same ▸ member)
  rw [tagName, List.takeWhile_append_of_pos passed]
  rfl

end Reading

def Balanced (out : Text) : Prop := ∃ ms, marks out = some ms ∧ Nested ms

section Balance

theorem balanced_text (text : Text) (clean : Clean text) : Balanced text := ⟨[], marks_text text clean, .nil⟩

theorem Balanced.append {out more : Text} (first : Balanced out) (second : Balanced more) : Balanced (out ++ more) := by
  obtain ⟨ms, read, nested⟩ := first
  obtain ⟨ns, readMore, nestedMore⟩ := second
  exact ⟨ms ++ ns, marks_append out more ms ns read readMore, nested.append nestedMore⟩

theorem Balanced.within {body : Text} (balanced : Balanced body) (opening closing name : Text)
    (opens : marks opening = some [.opens name]) (closes : marks closing = some [.closes name]) :
    Balanced (opening ++ body ++ closing) := by
  obtain ⟨ms, read, nested⟩ := balanced
  have front := marks_append opening body [.opens name] ms opens read
  exact ⟨_, marks_append (opening ++ body) closing _ _ front closes, nested.wrap name⟩

theorem balanced_flat_map {α : Type} (items : List α) (out : α → Text) (each : ∀ it ∈ items, Balanced (out it)) :
    Balanced (items.flatMap out) := by
  induction items with
  | nil => exact balanced_text [] clean_nil
  | cons it items ih =>
      obtain ⟨here, later⟩ := List.forall_mem_cons.mp each
      rw [List.flatMap_cons]
      exact here.append (ih later)

end Balance

section Tags

theorem marks_attributes (name rest : Text) (clean : Clean (name ++ ' ' :: rest)) (plain : ' ' ∉ name) (starts : name.head? ≠ some '/') :
    marks ('<' :: (name ++ ' ' :: rest ++ ['>'])) = some (if name ∈ ignored then [] else [.opens name]) := by
  have named : tagName (name ++ ' ' :: rest) = name := by
    rw [tag_name_passed _ _ plain, tagName]
    simp
  have mark : tagMark (name ++ ' ' :: rest) = if name ∈ ignored then none else some (.opens name) := by
    rw [tagMark, named]
    intro closing same
    cases name with
    | nil => exact absurd (List.cons.inj same).1 (by decide)
    | cons c name => exact starts (congrArg some (List.cons.inj same).1)
  rw [marks_tag _ clean, mark]
  split <;> rfl

theorem marks_opening (name rest : Text) (clean : Clean (name ++ ' ' :: rest)) (plain : ' ' ∉ name) (starts : name.head? ≠ some '/')
    (known : name ∉ ignored) : marks ('<' :: (name ++ ' ' :: rest ++ ['>'])) = some [.opens name] := by
  rw [marks_attributes name rest clean plain starts, if_neg known]

theorem number_characters (n : Int) : ∀ c ∈ numberText n, c ≠ '<' ∧ c ≠ '>' ∧ c ≠ ' ' := by
  have digits (m : Nat) : ∀ c ∈ Nat.toDigits 10 m, c ≠ '<' ∧ c ≠ '>' ∧ c ≠ ' ' := by
    intro c member
    have digit : c.isDigit := Nat.isDigit_of_mem_toDigits (by decide) (by decide) member
    refine ⟨?_, ?_, ?_⟩ <;> rintro rfl <;> exact absurd digit (by decide)
  cases n with
  | ofNat m => exact digits m
  | negSucc m => exact List.forall_mem_cons.mpr ⟨by decide, digits (m + 1)⟩

theorem number_clean (n : Int) : Clean (numberText n) :=
  ⟨fun member => (number_characters n '<' member).1 rfl, fun member => (number_characters n '>' member).2.1 rfl⟩

theorem heading_name (n : Int) : tagName ('h' :: numberText n) = 'h' :: numberText n := by
  have plain : ' ' ∉ 'h' :: numberText n := by
    simp only [List.mem_cons, not_or]
    exact ⟨by decide, fun member => (number_characters n ' ' member).2.2 rfl⟩
  have whole := tag_name_passed ('h' :: numberText n) [] plain
  simpa [tagName] using whole

theorem heading_opens (n : Int) : marks ("<h".toList ++ numberText n ++ ">".toList) = some [.opens ('h' :: numberText n)] := by
  have tag := marks_tag ('h' :: numberText n) (by simp [number_clean])
  have mark : tagMark ('h' :: numberText n) = some (.opens ('h' :: numberText n)) := by
    rw [tagMark, heading_name]
    · simp [ignored]
    · simp
  rw [mark] at tag
  simpa using tag

theorem heading_closes (n : Int) : marks ("</h".toList ++ numberText n ++ ">".toList) = some [.closes ('h' :: numberText n)] := by
  have tag := marks_tag ('/' :: 'h' :: numberText n) (by simp [number_clean])
  rw [tagMark, heading_name] at tag
  simpa using tag

theorem form_opens (action : Text) (clean : Clean action) :
    marks ("<form action='".toList ++ action ++ "' method='get' accept-charset='UTF-8'>".toList) = some [.opens "form".toList] := by
  have tag := marks_opening "form".toList ("action='".toList ++ action ++ "' method='get' accept-charset='UTF-8'".toList)
    (by simp [clean]) (by simp) (by simp) (by decide)
  simpa using tag

theorem optional_clean (before value after : Text) (front : Clean before) (clean : Clean value) (back : Clean after) :
    Clean (optional before value after) := by
  rw [optional]
  split
  case isTrue => exact clean_nil
  case isFalse => simp [front, clean, back]

theorem label_opens (for_ : Text) (clean : Clean for_) :
    marks ("<label ".toList ++ optional "for='".toList for_ "'".toList ++ ">".toList) = some [.opens "label".toList] := by
  have written := optional_clean "for='".toList for_ "'".toList (by simp) clean (by simp)
  have tag := marks_opening "label".toList (optional "for='".toList for_ "'".toList) (by simpa using written) (by simp) (by simp) (by decide)
  simpa using tag

theorem select_opens (name : Text) (clean : Clean name) :
    marks ("<select name='".toList ++ name ++ "'>".toList) = some [.opens "select".toList] := by
  have tag := marks_opening "select".toList ("name='".toList ++ name ++ "'".toList) (by simp [clean]) (by simp) (by simp) (by decide)
  simpa using tag

theorem option_opens (value : Text) (clean : Clean value) :
    marks ("<option value='".toList ++ value ++ "'>".toList) = some [.opens "option".toList] := by
  have tag := marks_opening "option".toList ("value='".toList ++ value ++ "'".toList) (by simp [clean]) (by simp) (by simp) (by decide)
  simpa using tag

theorem input_ignored (rest : Text) (clean : Clean rest) : marks ("<input ".toList ++ rest ++ " />".toList) = some [] := by
  have tag := marks_attributes "input".toList (rest ++ " /".toList) (by simp [clean]) (by simp) (by simp)
  rw [if_pos (by decide)] at tag
  simpa using tag

theorem input_attributes_clean (type name value other : Text) (required : Bool) (typed : Clean type) (named : Clean name)
    (valued : Clean value) (extra : Clean other) : Clean (inputAttributes type name value other required) := by
  have first := optional_clean " value='".toList value "'".toList (by simp) valued (by simp)
  have second := optional_clean " ".toList other [] (by simp) extra clean_nil
  have asked : Clean (if required then "required ".toList else []) := by
    cases required with
    | true => simp
    | false => simp
  have middle : Clean ("type='".toList ++ type ++ "' name='".toList ++ name ++ "'".toList) := by simp [typed, named]
  rw [inputAttributes, clean_append, clean_append, clean_append]
  exact ⟨⟨⟨asked, middle⟩, first⟩, second⟩

end Tags

section Elements

variable {inside : Text} (balanced : Balanced inside)
include balanced

theorem h_balanced (n : Int) (name : Text) (named : Clean name) : Balanced (hGett n name inside) :=
  ((balanced_text name named).append balanced).within _ _ ('h' :: numberText n) (heading_opens n) (heading_closes n)

theorem div_balanced : Balanced (divGett inside) := balanced.within "<div>".toList "</div>".toList "div".toList (by decide) (by decide)
theorem tr_balanced : Balanced (trGett inside) := balanced.within "<tr>".toList "</tr>".toList "tr".toList (by decide) (by decide)
theorem td_balanced : Balanced (tdGett inside) := balanced.within "<td>".toList "</td>".toList "td".toList (by decide) (by decide)

theorem form_balanced (action : Text) (named : Clean action) : Balanced (formGett action inside) :=
  balanced.within _ "</form>".toList "form".toList (form_opens action named) (by decide)

theorem label_balanced (name for_ : Text) (named : Clean name) (marked : Clean for_) : Balanced (labelGett name for_ inside) :=
  (balanced.append (balanced_text name named)).within _ "</label>".toList "label".toList (label_opens for_ marked) (by decide)

theorem fieldset_balanced (legend : Text) (named : Clean legend) : Balanced (fieldsetGett legend inside) := by
  have caption := (balanced_text legend named).within "<legend>".toList "</legend>".toList "legend".toList (by decide) (by decide)
  exact (caption.append balanced).within "<fieldset>".toList "</fieldset>".toList "fieldset".toList (by decide) (by decide)

end Elements

theorem select_balanced (name : Text) (values : List (Text × Text)) (named : Clean name)
    (listed : ∀ it ∈ values, Clean it.1 ∧ Clean it.2) : Balanced (selectGett name values) := by
  have options : Balanced (values.flatMap optionGett) := by
    refine balanced_flat_map values optionGett fun it member => ?_
    obtain ⟨value, text⟩ := listed it member
    exact (balanced_text it.2 text).within _ "</option>".toList "option".toList (option_opens it.1 value) (by decide)
  exact options.within _ "</select>".toList "select".toList (select_opens name named) (by decide)

mutual
theorem element_balanced (element : Element) (clean : ∀ text ∈ element.strings, Clean text) : Balanced element.gett := by
  cases element with
  | textasis name => exact balanced_text name (clean name (by simp [Element.strings]))
  | h n name htmls =>
      obtain ⟨named, inside⟩ := List.forall_mem_cons.mp clean
      exact h_balanced (elements_balanced htmls inside) n name named
  | div htmls => exact div_balanced (elements_balanced htmls clean)
  | tr htmls => exact tr_balanced (elements_balanced htmls clean)
  | td htmls => exact td_balanced (elements_balanced htmls clean)
  | br => exact ⟨[], by decide, .nil⟩
  | form action htmls =>
      obtain ⟨named, inside⟩ := List.forall_mem_cons.mp clean
      exact form_balanced (elements_balanced htmls inside) action named
  | label name for_ htmls =>
      obtain ⟨named, others⟩ := List.forall_mem_cons.mp clean
      obtain ⟨marked, inside⟩ := List.forall_mem_cons.mp others
      exact label_balanced (elements_balanced htmls inside) name for_ named marked
  | input type name value other required =>
      refine ⟨[], input_ignored _ (input_attributes_clean type name value other required ?_ ?_ ?_ ?_), .nil⟩
      · exact clean type (by simp [Element.strings])
      · exact clean name (by simp [Element.strings])
      · exact clean value (by simp [Element.strings])
      · exact clean other (by simp [Element.strings])
  | select name values =>
      obtain ⟨named, listed⟩ := List.forall_mem_cons.mp clean
      refine select_balanced name values named fun it member => ⟨listed it.1 ?_, listed it.2 ?_⟩
      · exact List.mem_flatMap.mpr ⟨it, member, by simp⟩
      · exact List.mem_flatMap.mpr ⟨it, member, by simp⟩
  | fieldset legend htmls =>
      obtain ⟨named, inside⟩ := List.forall_mem_cons.mp clean
      exact fieldset_balanced (elements_balanced htmls inside) legend named
theorem elements_balanced (htmls : List Element) (clean : ∀ text ∈ stringsOf htmls, Clean text) : Balanced (getts htmls) := by
  cases htmls with
  | nil => exact balanced_text [] clean_nil
  | cons it htmls =>
      obtain ⟨here, later⟩ := List.forall_mem_append.mp clean
      exact (element_balanced it here).append (elements_balanced htmls later)
end

theorem balanced_well_nested (out : Text) (balanced : Balanced out) : WellNested out := by
  obtain ⟨ms, read, nested⟩ := balanced
  rw [WellNested, read, Option.bind_some, nested_closed ms nested]

theorem head_balanced (name : Text) (clean : Clean name) : Balanced (headGett name) := by
  have title := (balanced_text name clean).within "<title>".toList "</title>".toList "title".toList (by decide) (by decide)
  have text : Clean functions := (clean_append _ _).mpr ⟨by decide +kernel, by decide +kernel⟩
  have written := (balanced_text functions text).within "<script>".toList "</script>".toList "script".toList (by decide) (by decide)
  have loaded : Balanced "<script src='https://api.ipify.org?format=jsonp&callback=getIP'></script>".toList := by
    have tag := marks_opening "script".toList "src='https://api.ipify.org?format=jsonp&callback=getIP'".toList (by simp) (by simp) (by simp)
      (by decide)
    have parts := (balanced_text [] clean_nil).within _ "</script>".toList "script".toList tag (by decide)
    simpa using parts
  exact ((title.append written).append loaded).within "<head>".toList "</head>".toList "head".toList (by decide) (by decide)

theorem page_well_nested (page : Page) (clean : ∀ text ∈ page.strings, Clean text) : WellNested page.gett := by
  obtain ⟨named, inside⟩ := List.forall_mem_cons.mp clean
  have doctype : Balanced "<!DOCTYPE html>".toList := ⟨[], by decide, .nil⟩
  have body := (elements_balanced page.htmls inside).within "<body onload='setIp()'>".toList "</body>".toList "body".toList (by decide) (by decide)
  have root := ((head_balanced page.name named).append body).within "<html lang='en'>".toList "</html>".toList "html".toList (by decide) (by decide)
  exact balanced_well_nested page.gett (doctype.append root)

theorem page_well_nested_login : WellNested (Page.gett ⟨"login".toList, [.form "/login".toList [
    .label "name: ".toList "user".toList [], .input "text".toList "user".toList [] "size='30'".toList true, .br,
    .select "pets".toList [("cat".toList, "Cat".toList)], .fieldset "more".toList [.h 3 "title".toList [], .textasis "text".toList]]]⟩) :=
  page_well_nested _ (by simp [Page.strings, Element.strings, stringsOf])

end Libx.Mam.Html

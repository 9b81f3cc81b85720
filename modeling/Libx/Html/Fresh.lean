import Libx.Html.Writer
import Mathlib.Data.List.Basic
import Mathlib.Data.List.Induction

set_option autoImplicit false

namespace Libx.Html

structure Page where
  doctype : Text
  htmlAttributes : Text
  headAttributes : Text
  head : Text
  bodyAttributes : Text
  body : Text

def BufferEdit.apply (text : Text) : BufferEdit → Text
  | .append more => text ++ more
  | .assign other => other
  | .erase => []

namespace Page

def blank : Page := ⟨[], [], [], [], [], []⟩

def edit (page : Page) : Edit → Page
  | .doctype change => { page with doctype := change page.doctype }
  | .htmlAttributes change => { page with htmlAttributes := change page.htmlAttributes }
  | .headAttributes change => { page with headAttributes := change page.headAttributes }
  | .bodyAttributes change => { page with bodyAttributes := change page.bodyAttributes }
  | .head edit => { page with head := edit.apply page.head }
  | .body edit => { page with body := edit.apply page.body }

def tag (name attributes : Text) : Text :=
  if attributes = [] then '<' :: (name ++ ['>']) else '<' :: (name ++ ' ' :: (attributes ++ ['>']))

def render (page : Page) (header : Bool) : Text :=
  (if header then page.doctype else []) ++ tag "html".toList page.htmlAttributes ++
    tag "head".toList page.headAttributes ++ page.head ++ "</head>".toList ++
    tag "body".toList page.bodyAttributes ++ page.body ++ "</body>".toList ++ "</html>".toList

end Page

variable {β : Type}

namespace Op

def editPage (page : Page) : Op β → Page
  | edit change => page.edit change
  | _ => page

def flag (last : Bool) : Op β → Bool
  | process header => header
  | _ => last

end Op

namespace Request

def page (request : Request β) : Page := request.foldl Op.editPage .blank
def header (request : Request β) : Bool := request.foldl Op.flag true
def expected (request : Request β) : Text := request.page.render request.header

structure Fresh (request : Request β) : Prop where
  split : ∃ edits header again, request = edits ++ List.replicate (again + 1) (.process header) ∧
    ∀ last ∈ edits.getLast?, ∃ change, last = .edit change

end Request

variable (ops : BufferOps β)

structure Shows (writer : Writer β) (page : Page) : Prop where
  doctype : writer.doctype = page.doctype
  htmlAttributes : writer.htmlAttributes = page.htmlAttributes
  headAttributes : writer.headAttributes = page.headAttributes
  head : ops.text writer.head = page.head
  bodyAttributes : writer.bodyAttributes = page.bodyAttributes
  body : ops.text writer.body = page.body

section Behaved

variable (behaves : Behaves ops) (writer : Writer β) (page : Page)
include behaves

omit behaves in
theorem process_shows (header : Bool) (shows_ : Shows ops writer page) : Shows ops (writer.process ops header) page := by
  rw [Writer.process]
  by_cases ready : writer.ready = true
  · rwa [if_pos ready]
  · rw [if_neg ready]
    exact ⟨shows_.doctype, shows_.htmlAttributes, shows_.headAttributes, shows_.head, shows_.bodyAttributes, shows_.body⟩

theorem reset_shows : Shows ops (writer.reset ops) .blank :=
  ⟨rfl, rfl, rfl, behaves.erase_text writer.head, rfl, behaves.erase_text writer.body⟩

theorem buffer_edit_text (buffer : β) (edit : BufferEdit) : ops.text (ops.edit buffer edit) = edit.apply (ops.text buffer) := by
  cases edit with
  | append text => exact behaves.append_text buffer text
  | assign text => exact behaves.assign_text buffer text
  | erase => exact behaves.erase_text buffer

theorem edit_shows (edit : Edit) (shows_ : Shows ops writer page) : Shows ops (writer.edit ops edit) (page.edit edit) := by
  obtain ⟨doctype, htmlAttributes, headAttributes, head, bodyAttributes, body⟩ := shows_
  cases edit with
  | doctype change => exact ⟨congrArg change doctype, htmlAttributes, headAttributes, head, bodyAttributes, body⟩
  | htmlAttributes change => exact ⟨doctype, congrArg change htmlAttributes, headAttributes, head, bodyAttributes, body⟩
  | headAttributes change => exact ⟨doctype, htmlAttributes, congrArg change headAttributes, head, bodyAttributes, body⟩
  | bodyAttributes change => exact ⟨doctype, htmlAttributes, headAttributes, head, congrArg change bodyAttributes, body⟩
  | head edit =>
      have text := (buffer_edit_text ops behaves writer.head edit).trans (congrArg edit.apply head)
      exact ⟨doctype, htmlAttributes, headAttributes, text, bodyAttributes, body⟩
  | body edit =>
      have text := (buffer_edit_text ops behaves writer.body edit).trans (congrArg edit.apply body)
      exact ⟨doctype, htmlAttributes, headAttributes, head, bodyAttributes, text⟩

theorem step_shows (op : Op β) (shows_ : Shows ops writer page) : Shows ops (writer.step ops op) (op.editPage page) := by
  cases op with
  | edit edit => exact edit_shows ops behaves writer page edit shows_
  | process header => exact process_shows ops writer page header shows_
  | direct write =>
      exact ⟨shows_.doctype, shows_.htmlAttributes, shows_.headAttributes, shows_.head, shows_.bodyAttributes, shows_.body⟩

theorem steps_show (request : Request β) (shows_ : Shows ops writer page) :
    Shows ops (request.foldl (Writer.step ops) writer) (request.foldl Op.editPage page) := by
  induction request generalizing writer page with
  | nil => exact shows_
  | cons op rest ih => exact ih (writer.step ops op) (op.editPage page) (step_shows ops behaves writer page op shows_)

theorem append_tag_text (buffer : β) (name attributes : Text) :
    ops.text (appendTag ops buffer name attributes) = ops.text buffer ++ Page.tag name attributes := by
  rw [appendTag, Page.tag]
  by_cases none_ : attributes = []
  · rw [if_pos none_, if_pos none_, behaves.append_text]
  · rw [if_neg none_, if_neg none_, behaves.append_text, behaves.append_text, behaves.append_text]
    simp

theorem assembled_text (header : Bool) (shows_ : Shows ops writer page) :
    ops.text (writer.assembled ops header) = page.render header := by
  have start : ops.text (if header then ops.append (ops.erase writer.buffer) writer.doctype else ops.erase writer.buffer) =
      if header then page.doctype else [] := by
    cases header with
    | true => simp [behaves.append_text, behaves.erase_text, shows_.doctype]
    | false => exact behaves.erase_text writer.buffer
  simp only [Writer.assembled, Page.render, append_tag_text ops behaves, behaves.append_text, start, shows_.htmlAttributes,
    shows_.headAttributes, shows_.head, shows_.bodyAttributes, shows_.body]

theorem process_text (header : Bool) (again : Nat) (notReady : writer.ready = false) (shows_ : Shows ops writer page) :
    ops.text ((List.replicate (again + 1) (.process header)).foldl (Writer.step ops) writer).buffer = page.render header := by
  have first : writer.step ops (.process header) = { writer with buffer := writer.assembled ops header, ready := true } := by
    rw [Writer.step, Writer.process, notReady]
    rfl
  have later (n : Nat) (done : Writer β) (ready : done.ready = true) :
      (List.replicate n (.process header)).foldl (Writer.step ops) done = done := by
    induction n with
    | zero => rfl
    | succ n ih =>
        rw [List.replicate_succ, List.foldl_cons, Writer.step, Writer.process, if_pos ready]
        exact ih
  rw [List.replicate_succ, List.foldl_cons, first, later again _ rfl]
  exact assembled_text ops behaves writer page header shows_

end Behaved

theorem edits_not_ready (edits : Request β) (writer : Writer β) (last : ∀ op ∈ edits.getLast?, ∃ change, op = .edit change) :
    (writer.serve ops edits).ready = false := by
  cases edits using List.reverseRecOn with
  | nil => rfl
  | append_singleton edits op =>
      obtain ⟨change, rfl⟩ := last op (by simp)
      rw [Writer.serve, List.foldl_concat, Writer.step]
      cases change <;> rfl

theorem replicate_page (header : Bool) (again : Nat) (page : Page) :
    (List.replicate again (.process header : Op β)).foldl Op.editPage page = page := by
  induction again with
  | zero => rfl
  | succ again ih => exact ih

theorem replicate_flag (header : Bool) (again : Nat) (last : Bool) :
    (List.replicate (again + 1) (.process header : Op β)).foldl Op.flag last = header := by
  induction again generalizing last with
  | zero => rfl
  | succ again ih => exact ih header

theorem fresh_served (behaves : Behaves ops) (writer : Writer β) (request : Request β) (fresh : request.Fresh) :
    ops.text (writer.serve ops request).buffer = request.expected := by
  obtain ⟨edits, header, again, rfl, last⟩ := fresh.split
  have shows_ := steps_show ops behaves (writer.reset ops) .blank edits (reset_shows ops behaves writer)
  have page : Request.page (edits ++ List.replicate (again + 1) (.process header)) = edits.foldl Op.editPage .blank := by
    rw [Request.page, List.foldl_append, replicate_page]
  have flag : Request.header (edits ++ List.replicate (again + 1) (.process header)) = header := by
    rw [Request.header, List.foldl_append, replicate_flag]
  rw [Request.expected, page, flag, Writer.serve, List.foldl_append]
  exact process_text ops behaves _ _ header again (edits_not_ready ops edits writer last) shows_

theorem fresh_responses (behaves : Behaves ops) (writer : Writer β) (requests : List (Request β)) (i : Nat) (request : Request β)
    (served : requests[i]? = some request) (fresh : request.Fresh) :
    (writer.responses ops requests)[i]? = some request.expected := by
  induction requests generalizing writer i with
  | nil => simp at served
  | cons first rest ih =>
      cases i with
      | zero =>
          obtain rfl : first = request := by simpa using served
          simp [Writer.responses, fresh_served ops behaves writer first fresh]
      | succ i =>
          rw [Writer.responses, List.getElem?_cons_succ]
          exact ih (writer.serve ops first) i (by simpa using served)

theorem edits_stale (writer : Writer β) (request : Request β) (edits : ∀ op ∈ request, ∃ change, op = .edit change) :
    (request.foldl (Writer.step ops) writer).buffer = writer.buffer := by
  induction request generalizing writer with
  | nil => rfl
  | cons op rest ih =>
      obtain ⟨change, rfl⟩ := edits op List.mem_cons_self
      rw [List.foldl_cons, ih _ fun other member => edits other (List.mem_cons_of_mem _ member), Writer.step]
      cases change <;> rfl

theorem http_time_stale (writer : Writer β) (hour minute second : Text) :
    (writer.serve ops (httpTime hour minute second)).buffer = writer.buffer := by
  refine edits_stale ops (writer.reset ops) _ fun op member => ?_
  obtain ⟨text, _, rfl⟩ := List.mem_map.mp member
  exact ⟨_, rfl⟩

def textBuffer : BufferOps Text := ⟨id, fun _ => [], fun buffer text => buffer ++ text, fun _ text => text⟩

theorem text_buffer_behaves : Behaves textBuffer := ⟨fun _ => rfl, fun _ _ => rfl, fun _ _ => rfl⟩

def emptyWriter : Writer Text := ⟨[], [], [], [], [], [], [], false⟩

theorem fresh_responses_not_found :
    (emptyWriter.responses textBuffer [httpTime "12".toList "30".toList "00".toList, http404])[1]? =
      some "<html><head></head><body>Document not found</body></html>".toList := by
  refine (fresh_responses textBuffer text_buffer_behaves emptyWriter _ 1 http404 rfl ?_).trans (by decide)
  exact ⟨[.edit (.body (.assign "Document not found".toList))], false, 0, rfl, by simp⟩

theorem clock_page_not_sent :
    (emptyWriter.responses textBuffer [http404, httpTime "12".toList "30".toList "00".toList])[1]? =
        some "<html><head></head><body>Document not found</body></html>".toList ∧
      (httpTime "12".toList "30".toList "00".toList : Request Text).expected ≠
        "<html><head></head><body>Document not found</body></html>".toList := by
  decide +kernel

end Libx.Html

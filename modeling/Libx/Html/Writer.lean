import Libx.Text

set_option autoImplicit false

namespace Libx.Html

-- xBuffer as HtmlWriter uses it; data() and length() are `text`.
structure BufferOps (β : Type) where
  text : β → Text
  erase : β → β
  append : β → Text → β
  assign : β → Text → β

structure Behaves {β : Type} (ops : BufferOps β) : Prop where
  erase_text : ∀ buffer, ops.text (ops.erase buffer) = []
  append_text : ∀ buffer text, ops.text (ops.append buffer text) = ops.text buffer ++ text
  assign_text : ∀ buffer text, ops.text (ops.assign buffer text) = text

structure Writer (β : Type) where
  doctype : Text
  htmlAttributes : Text
  headAttributes : Text
  head : β
  bodyAttributes : Text
  body : β
  buffer : β
  ready : Bool

inductive BufferEdit where
  | append (text : Text)
  | assign (text : Text)
  | erase

-- What a creator does through the accessors that clear ready_: it changes a
-- string, or edits one of the two buffers. add( NULL) is `body` with nothing appended.
inductive Edit where
  | doctype (change : Text → Text)
  | htmlAttributes (change : Text → Text)
  | headAttributes (change : Text → Text)
  | bodyAttributes (change : Text → Text)
  | head (edit : BufferEdit)
  | body (edit : BufferEdit)

-- body_ptr, body_size and set_body_length set ready_ and write the buffer itself.
inductive Op (β : Type) where
  | edit (edit : Edit)
  | process (header : Bool)
  | direct (write : β → β)

abbrev Request (β : Type) := List (Op β)

variable {β : Type} (ops : BufferOps β)

def BufferOps.edit (buffer : β) : BufferEdit → β
  | .append text => ops.append buffer text
  | .assign text => ops.assign buffer text
  | .erase => ops.erase buffer

-- A tag with its attributes, as process appends it.
def appendTag (buffer : β) (tag attributes : Text) : β :=
  if attributes = [] then ops.append buffer ('<' :: (tag ++ ['>']))
  else ops.append (ops.append (ops.append buffer ('<' :: (tag ++ [' ']))) attributes) ['>']

namespace Writer

def reset (writer : Writer β) : Writer β :=
  { writer with
    doctype := []
    htmlAttributes := []
    headAttributes := []
    head := ops.erase writer.head
    bodyAttributes := []
    body := ops.erase writer.body
    ready := false }

def edit (writer : Writer β) : Edit → Writer β
  | .doctype change => { writer with doctype := change writer.doctype, ready := false }
  | .htmlAttributes change => { writer with htmlAttributes := change writer.htmlAttributes, ready := false }
  | .headAttributes change => { writer with headAttributes := change writer.headAttributes, ready := false }
  | .bodyAttributes change => { writer with bodyAttributes := change writer.bodyAttributes, ready := false }
  | .head edit => { writer with head := ops.edit writer.head edit, ready := false }
  | .body edit => { writer with body := ops.edit writer.body edit, ready := false }

def assembled (writer : Writer β) (header : Bool) : β :=
  let buffer := ops.erase writer.buffer
  let buffer := if header then ops.append buffer writer.doctype else buffer
  let buffer := appendTag ops buffer "html".toList writer.htmlAttributes
  let buffer := appendTag ops buffer "head".toList writer.headAttributes
  let buffer := ops.append (ops.append buffer (ops.text writer.head)) "</head>".toList
  let buffer := appendTag ops buffer "body".toList writer.bodyAttributes
  let buffer := ops.append (ops.append buffer (ops.text writer.body)) "</body>".toList
  ops.append buffer "</html>".toList

def process (writer : Writer β) (header : Bool) : Writer β :=
  if writer.ready then writer else { writer with buffer := writer.assembled ops header, ready := true }

def step (writer : Writer β) : Op β → Writer β
  | .edit edit => writer.edit ops edit
  | .process header => writer.process ops header
  | .direct write => { writer with buffer := write writer.buffer, ready := true }

-- Consume: reset, the operations of the creator, then data() and length().
def serve (writer : Writer β) (request : Request β) : Writer β := request.foldl (step ops) (writer.reset ops)

def responses : Writer β → List (Request β) → List Text
  | _, [] => []
  | writer, request :: rest =>
      ops.text (writer.serve ops request).buffer :: responses (writer.serve ops request) rest

end Writer

-- The edits of Http404 and HttpTime.
def http404 : Request β := [.edit (.body (.assign "Document not found".toList)), .process false]

def httpTime (hour minute second : Text) : Request β :=
  ["<html>".toList, "<head>".toList, "<meta http-equiv='Refresh' content='10'>".toList, "</head>".toList, "<body>".toList,
    "<span style='font-size:18.0pt;font-family:Arial;color:#AAAAAA'>".toList,
    "<center><b>".toList ++ hour.take 2 ++ ':' :: minute.take 2 ++ ':' :: second.take 2 ++ "</b></center>".toList,
    "</span>".toList, "</body>".toList, "</html>".toList].map fun text => .edit (.body (.append text))

end Libx.Html

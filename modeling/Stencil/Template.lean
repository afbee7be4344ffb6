import Stencil.Document.Builder
import Stencil.Document.Outline
import Stencil.Document.Trimming
import Stencil.Rendering
import Stencil.Sink

/-!
# Templates

A template is a source with its settings.  Its document is made when it is first asked for and kept
until a setting changes that the document depends on.

## Main Definitions

* `Template` — the source, the settings and the document that is kept
* `Template.setSource`, `Template.setTrimming`, `Template.setMarkers`, … — changing settings
* `Template.build`, `Template.document` — the document of a template, made anew or kept
* `Template.render`, `Template.renderTo`, `Template.dump` — what documents are asked for
* `Template.ofFile` — the template of a file
-/

namespace Stencil

/-- A source with its settings. -/
structure Template where
  name : Option Text := none
  source : Text
  markers : Markers := .standard
  /-- Whether the white space around tags is taken away. -/
  trimming : Bool := true
  /-- Whether something other than the log takes the values of debug tags. -/
  hooked : Bool := false
  /-- The number of the receiver that takes them then. -/
  receiver : Nat := 0
  /-- The document, if it has been made since the last change. -/
  kept : Option Document := none

/-- Why a rendering stops. -/
inductive Failure
  /-- The template has no document, or the output takes no more. -/
  | error (e : Error)
  /-- A frame is missing. -/
  | fault (f : Scope.Fault)

/-- Reports an error as the sink explains it. -/
def Failure.explainBy (k : Sink) : Failure → Failure
  | error e => error (k.explain e)
  | fault f => fault f

namespace Template

/-- A template with the usual settings. -/
def ofSource (source : Text) : Template := { source }

/-- Drops the document that is kept. -/
def discard (t : Template) : Traced Template :=
  match t.kept with
  | some _ => ⟨{ t with kept := none }, [.noted (.discarded t.name)]⟩
  | none => pure t

/-- Changes the source. -/
def setSource (t : Template) (source : Text) : Traced Template := discard { t with source }

/-- Switches trimming on or off.  If that is no change, the document is kept. -/
def setTrimming (t : Template) (trimming : Bool) : Traced Template :=
  if t.trimming = trimming then pure t else discard { t with trimming }

/-- Changes the markers.  If the texts are no markers, the template stays as it is. -/
def setMarkers (t : Template) (opening closing : Text) : Traced (Except Error Unit × Template) :=
  match Markers.ofTexts opening closing with
  | .ok markers => (discard { t with markers }).map (.ok (), ·)
  | .error fault => pure (.error { cause := .badMarkers fault }, t)

/-- Changes the name. -/
def setName (t : Template) (name : Text) : Template := { t with name := some name }

/-- Lets a receiver take the values of debug tags in place of the log. -/
def hook (t : Template) (receiver : Nat := 0) : Template := { t with hooked := true, receiver }

/-- The receiver that takes the values of debug tags, unless the log does. -/
def audience (t : Template) : Option Nat := if t.hooked then some t.receiver else none

/-- The template of a source with markers of its own. -/
def withMarkers (source opening closing : Text) : Except Error Template :=
  match Markers.ofTexts opening closing with
  | .ok markers => .ok { source, markers }
  | .error fault => .error { cause := .badMarkers fault }

/-- Makes the document of a template.  An error tells the name and the source of the template. -/
def build (t : Template) : Traced (Except Error Document) := do
  Traced.emit (.noted (.building t.trimming t.name))
  match ← Document.read t.markers t.source with
  | .ok d => return .ok (if t.trimming then d.trim else d)
  | .error e => return .error { e with name := t.name, source := some t.source }

/-- The document of a template, and the template that keeps it.  An error is not kept. -/
def document (t : Template) : Traced (Except Error Document × Template) :=
  match t.kept with
  | some d => pure (.ok d, t)
  | none => do
    match ← t.build with
    | .ok d => return (.ok d, { t with kept := some d })
    | .error e => return (.error e, t)

/-- Renders a template over a model; what it writes is among the events. -/
def render [Json.Library] (t : Template) (model : Model) :
    Traced (Except Failure Unit × Template) := do
  match ← t.document with
  | (.error e, t) => return (.error (.error e), t)
  | (.ok d, t) =>
    match ← d.render model with
    | .ok _ => return (.ok (), t)
    | .error fault => return (.error (.fault fault), t)

/-- Renders a template into a sink that takes `limit` bytes in all, and returns the bytes that the
sink has taken. -/
def renderTo [Json.Library] (t : Template) (model : Model) (limit : Nat) :
    Traced (Except Failure Unit × List UInt8 × Template) :=
  let whole := t.render model
  let (seen, sink) := (Sink.ofLimit limit).follow whole.events
  let outcome :=
    if sink.failed then .error (.error { cause := .unwritten }) else whole.result.1
  ⟨(outcome.mapError (Failure.explainBy sink), sink.taken, whole.result.2), seen⟩

/-- The dump of the document of a template. -/
def dump (t : Template) (contents : Bool) : Traced (Except Error Text × Template) :=
  t.document.map fun (r, t) => (r.map (Document.dump contents), t)

/-- The template of the file at a path, given the bytes of the file if there is one.  The path is
the name of the template. -/
def ofFile (path : Text) (bytes : Option ByteArray) : Except Error Template :=
  match bytes.bind String.fromUTF8? with
  | some source => .ok { name := some path, source := source.toList }
  | none => .error { cause := .unreadable path }

end Template

end Stencil

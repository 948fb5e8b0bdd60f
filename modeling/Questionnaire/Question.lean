import Questionnaire.Config
import Questionnaire.Definition
import Questionnaire.Spec.Reader
import Questionnaire.Widget.Render

/-! # Questions

A question sends a transition for each answer that its widget confirms. It is
drawn by binding its fields and then the terms in the question template, with
the widget in the options slot.
-/

namespace Questionnaire

open Markup (Node)

/-- What the questions of a form share. -/
structure Context where
  templates : Templates
  definitions : Bindings
  config : Config

/-- Renders the definitions once. -/
def Context.create (templates : Templates) (terminology : Terminology) (config : Config) :
    Logged Context := do
  let definitions ← terminology.definitions templates.definition.source config.defaultLink
  return ⟨templates, definitions, config⟩

/-- An answered question, and the question that follows, if the answer leads anywhere. -/
structure Transition where
  source : String
  answer : Answer
  target : Option String
  deriving DecidableEq, Repr

/-- Transitions that wait for their reader. Nothing is kept once the reader is gone. -/
structure Mailbox where
  waiting : List Transition := []
  isOpen : Bool := true
  deriving DecidableEq, Repr

namespace Mailbox

def send (t : Transition) (m : Mailbox) : Mailbox :=
  if m.isOpen then { m with waiting := m.waiting ++ [t] } else m

/-- The waiting transitions and the mailbox without them. -/
def drain (m : Mailbox) : List Transition × Mailbox := (m.waiting, { m with waiting := [] })

/-- The mailbox when its reader has gone. -/
def close (m : Mailbox) : Mailbox := { m with waiting := [], isOpen := false }

end Mailbox

/-- Who listens to the answers of a question. -/
inductive Listener where
  | mailbox
  | observer (name : String)
  deriving DecidableEq, Repr

structure Question where
  id : String
  title : String
  description : Option String
  widget : Widget Listener
  next : Table String
  context : Context

namespace Question

def create (id : String) (spec : QuestionSpec) (context : Context) : Logged Question := do
  let widget ← Widget.ofSpec spec.format context.templates
  return {
    id, context
    title := spec.title
    description := spec.description
    widget := widget.addListener .mailbox
    next := spec.next }

/-- A question by its entry in a document. -/
def ofEntry (id : String) (entry : Json) (context : Context) :
    Except SpecError (Logged Question) :=
  (QuestionSpec.ofJson entry).map (create id · context)

def answer (q : Question) : Answer := q.widget.answer

def addListener (name : String) (q : Question) : Question :=
  { q with widget := q.widget.addListener (.observer name) }

/-- The question that an answer leads to. -/
def nextFor (a : Answer) (q : Question) : Option String :=
  (a.key? q.context.config.answerSeparator).bind q.next.get?

def transition (a : Answer) (q : Question) : Transition := ⟨q.id, a, q.nextFor a⟩

/-- One call of a listener. -/
def deliver (q : Question) (m : Mailbox) (call : Listener × Answer) : Mailbox :=
  match call.1 with
  | .mailbox => m.send (q.transition call.2)
  | .observer _ => m

def observed (calls : List (Listener × Answer)) : List (String × Answer) :=
  calls.filterMap fun
    | (.mailbox, _) => none
    | (.observer name, a) => some (name, a)

/-- The outcome of an interaction with a question. -/
structure Outcome where
  question : Question
  mailbox : Mailbox
  confirmed : Option Answer
  calls : List (String × Answer)

def interact (i : Interaction) (m : Mailbox) (q : Question) : Logged Outcome := do
  let r ← q.widget.interact i
  let q := { q with widget := r.widget }
  return ⟨q, r.calls.foldl q.deliver m, r.confirmed, observed r.calls⟩

def fields (q : Question) : Bindings :=
  let description := q.description.getD ""
  Table.ofList [("id", q.id), ("title", q.title), ("content", description),
    ("description", description)]

/-- The frame of a question, before the widget is put in. -/
def frame (q : Question) : Logged (List Node) := do
  let markup ← fill .field q.fields q.context.templates.question.source
  let markup ← fillTerms q.context.definitions markup
  return Markup.parse markup

def render (q : Question) : Logged (List Node) := do
  let frame ← q.frame
  let slot := q.context.config.optionsSlot
  if (Markup.elementById? slot frame).isSome then
    let widget ← q.widget.render
    let put (e : Markup.Element) : Markup.Element := { e with children := e.children ++ widget }
    return (Markup.updateById? slot put frame).getD frame
  else
    Logged.report (.optionsSlotMissing q.id slot)
    return frame

end Question

end Questionnaire

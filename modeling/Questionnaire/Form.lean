import Questionnaire.Graph
import Questionnaire.Region
import Questionnaire.Resources

/-! # Forms

A form loads its resources, shows the start question and moves from question to
question as answers are confirmed. Answers that lead nowhere, or to a question
that is not in the graph, leave the question where it is.
-/

namespace Questionnaire

inductive Phase where
  | loading
  | failed
  | ready (graph : Graph) (current : Option String)

structure Form (ρ : Type) where
  config : Config
  region : ρ
  phase : Phase := .loading
  mailbox : Mailbox := {}
  buildErrors : List BuildError := []

namespace Form

variable {ρ : Type} [DisplayRegion ρ]

open DisplayRegion

def graph? (f : Form ρ) : Option Graph :=
  match f.phase with
  | .ready graph _ => some graph
  | _ => none

def currentId? (f : Form ρ) : Option String :=
  match f.phase with
  | .ready _ current => current
  | _ => none

/-- The question that is shown. -/
def current? (f : Form ρ) : Option Question :=
  match f.phase with
  | .ready graph (some id) => graph.get? id
  | _ => none

def isReady (f : Form ρ) : Bool := f.graph?.isSome

def hasFailed (f : Form ρ) : Bool :=
  match f.phase with
  | .failed => true
  | _ => false

/-- Removes the question that is shown, if there is one. -/
def clear (f : Form ρ) : Form ρ :=
  match f.phase with
  | .ready _ (some _) => { f with region := detach f.region }
  | _ => f

/-- Builds the graph from loaded resources. Transitions of an earlier graph are dropped. -/
def install (r : Resources) (f : Form ρ) : Logged (Form ρ) := do
  let f := f.clear
  let context ← Context.create r.templates r.terminology f.config
  let (graph, errors) ← Graph.build r.outline context
  if !errors.isEmpty then Logged.report (.questionsDropped errors.length)
  return { f with
    phase := .ready graph none
    mailbox := f.mailbox.drain.2
    buildErrors := errors }

/-- Takes the outcome of loading. A failure is shown and leaves the form without graph. -/
def takeResources (outcome : Except FormError Resources) (f : Form ρ) :
    Logged (Form ρ × Except FormError (List BuildError)) := do
  match outcome with
  | .ok resources =>
    let f ← f.install resources
    return (f, .ok f.buildErrors)
  | .error error =>
    Logged.report (.loadFailed error)
    return ({ f with region := loadingFailed error f.region, phase := .failed }, .error error)

def load (loader : String → Except String String) (f : Form ρ) :
    Logged (Form ρ × Except FormError (List BuildError)) :=
  f.takeResources (Id.run (Resources.load (m := Id) loader f.config))

/-- Shows a question of the graph. -/
def display (graph : Graph) (question : Question) (id : String) (f : Form ρ) :
    Logged (Form ρ) := do
  let nodes ← question.render
  let region ← attach nodes f.clear.region
  return { f with region := region, phase := .ready graph (some id) }

def start (f : Form ρ) : Logged (Form ρ × Except FormError String) := do
  match f.phase with
  | .ready graph _ =>
    match graph.startQuestion? with
    | some question =>
      let f ← f.display graph question question.id
      return ({ f with region := loadingFinished f.region }, .ok question.id)
    | none =>
      Logged.report (.startMissing graph.start)
      return ({ f with region := loadingFinished f.region }, .error (.startNotFound graph.start))
  | _ => return (f, .error .notInitialized)

/-- Moves to a question; refused if it is not in the graph. -/
def advance (next : String) (f : Form ρ) : Logged (Form ρ × Bool) := do
  match f.phase with
  | .ready graph _ =>
    match graph.get? next with
    | some question => return (← f.display graph question next, true)
    | none =>
      Logged.report (.nextMissing next)
      return (f, false)
  | _ =>
    Logged.report (.advanceTooEarly next)
    return (f, false)

/-- Draws the question that is shown anew. -/
def refresh (f : Form ρ) : Logged (Form ρ × Bool) := do
  match f.phase with
  | .ready graph (some id) =>
    match graph.get? id with
    | some question => return (← f.display graph question id, true)
    | none => return (f, false)
  | _ => return (f, false)

/-- Follows a transition of the question that is shown. -/
def follow (f : Form ρ) (t : Transition) : Logged (Form ρ) := do
  if f.currentId? = some t.source then
    match t.target with
    | some target => return (← f.advance target).1
    | none => return f
  else return f

/-- Delivers an interaction to the question that is shown and follows the transitions it
sends. -/
def dispatch (i : Interaction) (f : Form ρ) :
    Logged (Form ρ × Except FormError (List Transition)) := do
  match f.phase with
  | .ready graph (some id) =>
    if graph.contains id then
      let o ← graph.interact id i f.mailbox
      let (transitions, mailbox) := o.mailbox.drain
      let f ← transitions.foldlM follow
        { f with phase := .ready o.graph (some id), mailbox := mailbox }
      return (f, .ok transitions)
    else return (f, .ok [])
  | .ready _ none => return (f, .ok [])
  | _ => return (f, .error .notInitialized)

end Form

end Questionnaire

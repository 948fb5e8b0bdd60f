import Questionnaire.Question
import Questionnaire.Outline

/-! # Question graphs

A graph holds the questions of an outline that could be built. The others are
reported and left out, and so are transitions that lead to no question.
-/

namespace Questionnaire

open Markup (Node)

structure Graph where
  start : String
  questions : Table Question

namespace Graph

/-- The questions that can be built, and the errors of the others, in the order of ids. -/
def buildQuestions (context : Context) (entries : List (String × Json)) :
    Logged (Table Question × List BuildError) :=
  entries.foldlM (fun (questions, errors) (id, entry) =>
    match Question.ofEntry id entry context with
    | .ok question => do return (questions.put id (← question), errors)
    | .error cause => do
      Logged.report (.questionDropped id cause)
      return (questions, errors ++ [⟨id, cause⟩])) (Table.empty, [])

def get? (id : String) (g : Graph) : Option Question := g.questions.get? id

def contains (id : String) (g : Graph) : Bool := g.questions.contains id

def startQuestion? (g : Graph) : Option Question := g.get? g.start

def size (g : Graph) : Nat := g.questions.size

def isEmpty (g : Graph) : Bool := g.questions.isEmpty

/-- A transition of a question whose target is not in the graph. -/
structure Dangling where
  source : String
  answer : String
  target : String
  deriving DecidableEq, Repr

def dangling (g : Graph) : List Dangling :=
  g.questions.values.flatMap fun q =>
    (q.next.entries.filter fun e => !g.contains e.2).map fun e => ⟨q.id, e.1, e.2⟩

def build (outline : Outline) (context : Context) : Logged (Graph × List BuildError) := do
  let (questions, errors) ← buildQuestions context outline.questions.entries
  let g : Graph := ⟨outline.start, questions⟩
  ⟨(g, errors), g.dangling.map fun d => .danglingTransition d.source d.answer d.target⟩

/-- The outcome of an interaction with a question of a graph. -/
structure Outcome where
  graph : Graph
  mailbox : Mailbox
  confirmed : Option Answer

/-- Delivers an interaction to one question. -/
def interact (id : String) (i : Interaction) (m : Mailbox) (g : Graph) : Logged Outcome :=
  match g.get? id with
  | none => return ⟨g, m, none⟩
  | some q => do
    let o ← q.interact i m
    return ⟨{ g with questions := g.questions.put id o.question }, o.mailbox, o.confirmed⟩

end Graph

end Questionnaire

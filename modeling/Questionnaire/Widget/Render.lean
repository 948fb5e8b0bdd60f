import Questionnaire.Markup.Lookup
import Questionnaire.Widget.Basic

/-! # Drawing widgets

The clickable elements of an option carry the option as their answer, those of
the confirm control and the text inputs carry their action. A user's click or
input is told by these attributes.
-/

namespace Questionnaire

open Markup (Node Tag)

namespace Widget

def clickableClass : String := "clickable"
def answerAttribute : String := "data-answer"
def actionAttribute : String := "data-action"
def selectedAttribute : String := "data-selected"

def markOption (option : String) (selected : Bool) (t : Tag) : Tag :=
  if t.hasClass clickableClass then
    let t := t.setAttribute answerAttribute option
    if selected then t.setAttribute selectedAttribute "true" else t
  else t

def markConfirm (t : Tag) : Tag :=
  if t.hasClass clickableClass then t.setAttribute actionAttribute "confirm" else t

def markSubmit (t : Tag) : Tag :=
  if t.name = "input" || t.name = "textarea" then t.setAttribute actionAttribute "submit" else t

def drawOption (template : Template) (selected : Bool) (option : String) :
    Logged (List Node) :=
  Markup.mapTags (markOption option selected) <$>
    template.instantiate (Table.ofList [("name", option)])

def drawConfirm (template : Template) : List Node :=
  Markup.mapTags markConfirm template.document

def drawText (template : Template) (value : String) : Logged (List Node) :=
  Markup.mapTags markSubmit <$>
    template.instantiate (Table.ofList [("value", Markup.escapeAttribute value)])

variable {κ : Type}

/-- The nodes of a widget: one block per option and the confirm control, or the input. -/
def render (w : Widget κ) : Logged (List Node) := do
  match w.kind with
  | .select template multiple options confirm =>
    let blocks ← options.mapM fun o => drawOption template (w.answer.contains o) o
    if multiple then
      match confirm with
      | some control => return blocks.flatten ++ drawConfirm control
      | none =>
        Logged.report .confirmTemplateMissing
        return blocks.flatten
    else return blocks.flatten
  | .text template => drawText template (w.answer.values.headD "")

end Widget

end Questionnaire

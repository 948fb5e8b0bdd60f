import Questionnaire.Answer
import Questionnaire.Event
import Questionnaire.Listeners
import Questionnaire.Spec.Basic
import Questionnaire.Template

/-! # Answer widgets

A widget takes the answer of a question. A single choice confirms with each
click, a multiple choice by its confirm control and a text when it is submitted.
Every confirmation is told to all listeners.
-/

namespace Questionnaire

inductive Interaction where
  | click (option : String)
  | input (text : String)
  | confirm
  | submit (text : String)
  deriving DecidableEq, Repr

/-- What a widget asks for and the templates it is drawn with. -/
inductive WidgetKind where
  | select (template : Template) (multiple : Bool) (options : List String)
      (confirm : Option Template)
  | text (template : Template)
  deriving DecidableEq, Repr

structure Widget (κ : Type) where
  kind : WidgetKind
  answer : Answer := .empty
  listeners : Listeners κ := {}
  deriving DecidableEq, Repr

/-- The outcome of an interaction: the widget after it, the answer if it was confirmed,
and the calls made. -/
structure Reaction (κ : Type) where
  widget : Widget κ
  confirmed : Option Answer := none
  calls : List (κ × Answer) := []
  deriving DecidableEq, Repr

namespace Widget

variable {κ : Type}

def typeName (w : Widget κ) : String :=
  match w.kind with
  | .select _ _ _ _ => "select"
  | .text _ => "text"

/-- A widget as specified. A multiple choice without a confirm control is reported. -/
def ofSpec (format : FormatSpec) (templates : Templates) : Logged (Widget κ) := do
  match format with
  | .select multiple options =>
    if multiple && templates.confirm.isNone then Logged.report .unconfirmableSelect
    return { kind := .select templates.option multiple options templates.confirm }
  | .text => return { kind := .text templates.textInput }

def addListener (k : κ) (w : Widget κ) : Widget κ :=
  { w with listeners := w.listeners.add k }

def withAnswer (w : Widget κ) (a : Answer) : Widget κ := { w with answer := a }

/-- Tells all listeners the answer as it is. -/
def confirm (w : Widget κ) : Reaction κ :=
  ⟨w, some w.answer, w.listeners.notify w.answer⟩

/-- No confirmation. -/
def keep (w : Widget κ) : Reaction κ := { widget := w }

def interact (i : Interaction) (w : Widget κ) : Logged (Reaction κ) := do
  match w.kind, i with
  | .select _ multiple options _, .click option =>
    if !options.contains option then
      Logged.report (.unknownOption option)
      return w.keep
    else if multiple then return (w.withAnswer (w.answer.toggle options option)).keep
    else return (w.withAnswer (.single option)).confirm
  | .select _ true _ none, .confirm =>
    Logged.report .confirmControlMissing
    return w.keep
  | .select _ true _ (some _), .confirm => return w.confirm
  | .text _, .input text => return (w.withAnswer (.single text)).keep
  | .text _, .confirm => if w.answer.isEmpty then return w.keep else return w.confirm
  | .text _, .submit text => return (w.withAnswer (.single text)).confirm
  | _, _ => return w.keep

end Widget

end Questionnaire

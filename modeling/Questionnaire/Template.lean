import Questionnaire.Markup.Parser
import Questionnaire.Placeholder

/-! # Templates

A template is markup that is filled and parsed anew for each use. A form has one
for the frame of a question, for its options and inputs, and for definitions.
-/

namespace Questionnaire

open Markup (Node)

structure Template where
  name : String
  source : String
  deriving DecidableEq, Repr

namespace Template

def document (t : Template) : List Node := Markup.parse t.source

/-- The template with its data fields bound. -/
def instantiate (fields : Bindings) (t : Template) : Logged (List Node) :=
  Markup.parse <$> fill .field fields t.source

end Template

/-- The templates of a form. A multiple choice cannot be confirmed without a confirm
control. -/
structure Templates where
  question : Template
  option : Template
  confirm : Option Template
  textInput : Template
  definition : Template
  deriving DecidableEq, Repr

namespace Templates

def questionName : String := "question"
def optionName : String := "option"
def confirmName : String := "confirm"
def textInputName : String := "text_input"
def definitionName : String := "definition"

def ofSources (question option : String) (confirm : Option String)
    (textInput definition : String) : Templates where
  question := ⟨questionName, question⟩
  option := ⟨optionName, option⟩
  confirm := confirm.map (⟨confirmName, ·⟩)
  textInput := ⟨textInputName, textInput⟩
  definition := ⟨definitionName, definition⟩

def all (t : Templates) : List Template :=
  [t.question, t.option] ++ t.confirm.toList ++ [t.textInput, t.definition]

end Templates

end Questionnaire

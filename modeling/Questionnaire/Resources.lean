import Questionnaire.Error
import Questionnaire.Outline
import Questionnaire.Template
import Questionnaire.Terminology

/-! # Resources

A form needs five templates and two documents. They are fetched one after
another by their paths, and the first failure ends the loading.
-/

namespace Questionnaire

structure Resources where
  templates : Templates
  outline : Outline
  terminology : Terminology

namespace Resources

def structureFile : String := "structure.json"
def terminologyFile : String := "terminology.json"

variable {m : Type → Type} [Monad m]

def fetch (load : String → m (Except String String)) (path : String) :
    ExceptT FormError m String :=
  ExceptT.mk do return (← load path).mapError (.load path)

def fetchTemplate (load : String → m (Except String String)) (config : Config)
    (name : String) : ExceptT FormError m Template :=
  return ⟨name, ← fetch load (config.templatePath name)⟩

def fetchDocument {α : Type} (load : String → m (Except String String)) (config : Config)
    (read : String → Except Json.Error α) (file : String) : ExceptT FormError m α := do
  let path := config.configPath file
  let text ← fetch load path
  ExceptT.mk (pure ((read text).mapError (.parse path)))

/-- All templates, then the outline, then the terminology. -/
def load (load : String → m (Except String String)) (config : Config) :
    ExceptT FormError m Resources := do
  let question ← fetchTemplate load config Templates.questionName
  let option ← fetchTemplate load config Templates.optionName
  let confirm ← fetchTemplate load config Templates.confirmName
  let textInput ← fetchTemplate load config Templates.textInputName
  let definition ← fetchTemplate load config Templates.definitionName
  let outline ← fetchDocument load config Outline.ofText structureFile
  let terminology ← fetchDocument load config Terminology.ofText terminologyFile
  return ⟨⟨question, option, some confirm, textInput, definition⟩, outline, terminology⟩

end Resources

/-- Resources kept by their paths. -/
def Table.loadResource (files : Table String) (path : String) : Except String String :=
  match files.get? path with
  | some text => .ok text
  | none => .error ("resource not found: " ++ path)

end Questionnaire

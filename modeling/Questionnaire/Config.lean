import Questionnaire.Json.Reader

/-! # Form configuration

A configuration names the places of a page, the folders of the resources and the
texts that join answers and link terms. Every field has a default.
-/

namespace Questionnaire

/-- The link of a term that has none of its own. -/
def defaultLink : String := "#"

structure Config where
  displayRegion : String := "questions"
  loadingIndicator : String := "loading"
  optionsSlot : String := "options"
  templatesDir : String := "templates"
  configDir : String := "config"
  answerSeparator : String := ","
  defaultLink : String := Questionnaire.defaultLink
  deriving DecidableEq, Repr

namespace Config

instance : Inhabited Config := ⟨{}⟩

def fields : List String :=
  ["display_region", "loading_indicator", "options_slot", "templates_dir", "config_dir",
    "answer_separator", "default_link"]

def set (field value : String) (c : Config) : Config :=
  match field with
  | "display_region" => { c with displayRegion := value }
  | "loading_indicator" => { c with loadingIndicator := value }
  | "options_slot" => { c with optionsSlot := value }
  | "templates_dir" => { c with templatesDir := value }
  | "config_dir" => { c with configDir := value }
  | "answer_separator" => { c with answerSeparator := value }
  | "default_link" => { c with defaultLink := value }
  | _ => c

def shape : Json.Source.Shape Config where
  name := "FormConfig"
  fields := fields
  required := []
  blank := {}
  set _ field s c := return c.set field (← s.asString .string)

def ofText (text : String) : Except Json.Error Config :=
  Json.read (fun nesting s => shape.read nesting s) text

/-- A file in a folder; the empty folder adds nothing. -/
def inFolder (folder file : String) : String :=
  let folder := (folder.toList.reverse.dropWhile (· = '/')).reverse
  if folder.isEmpty then file else String.ofList folder ++ "/" ++ file

def templatePath (c : Config) (name : String) : String :=
  inFolder c.templatesDir (name ++ ".html")

def configPath (c : Config) (file : String) : String :=
  inFolder c.configDir file

end Config

end Questionnaire

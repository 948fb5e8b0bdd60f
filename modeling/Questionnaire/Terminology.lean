import Questionnaire.Config
import Questionnaire.Json.Printer

/-! # Terminology

A terminology gives terms their definitions, in the order of the terms.
-/

namespace Questionnaire

structure TermEntry where
  definition : String
  link : Option String := none
  deriving DecidableEq, Repr

namespace TermEntry

def linkOr (fallback : String) (e : TermEntry) : String := e.link.getD fallback

def toJson (e : TermEntry) : Json :=
  .object (("definition", .string e.definition) ::
    match e.link with
    | some link => [("link", .string link)]
    | none => [])

def shape : Json.Source.Shape TermEntry where
  name := "TerminologyEntry"
  fields := ["definition", "link"]
  required := ["definition"]
  blank := ⟨"", none⟩
  set _ field s e := do
    if field = "definition" then return { e with definition := ← s.asString .string }
    else return { e with link := ← s.asOptionalString }

end TermEntry

abbrev Terminology := Table TermEntry

namespace Terminology

def toJson (t : Terminology) : Json :=
  .object (t.entries.map fun e => (e.1, e.2.toJson))

def ofText (text : String) : Except Json.Error Terminology :=
  Json.read (Json.Source.asTable fun nesting s => TermEntry.shape.read nesting s) text

end Terminology

end Questionnaire

import Questionnaire.Spec.Reader

/-! # Form outlines

An outline names the first question and keeps the entries of all questions as
they were written, so that one bad entry does not spoil the document.
-/

namespace Questionnaire

structure Outline where
  start : String
  questions : Table Json := ∅

namespace Outline

/-- Adds an entry in the form in which it would be read. -/
def withEntry (o : Outline) (id : String) (entry : Json) : Outline :=
  { o with questions := o.questions.put id entry.sorted }

def withQuestion (o : Outline) (id : String) (spec : QuestionSpec) : Outline :=
  o.withEntry id spec.toJson

def toJson (o : Outline) : Json :=
  .object [("start", .string o.start), ("questions", .object o.questions.entries)]

def shape : Json.Source.Shape Outline where
  name := "Structure"
  fields := ["start", "questions"]
  required := ["start"]
  blank := ⟨"", ∅⟩
  set nesting field s record := do
    if field = "start" then return { record with start := ← s.asString .string }
    else return { record with questions := ← s.asTable Json.Source.asJson nesting }

def ofText (text : String) : Except Json.Error Outline :=
  Json.read (fun nesting s => shape.read nesting s) text

end Outline

end Questionnaire

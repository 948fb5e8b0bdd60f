import Questionnaire.Json.Reader
import Questionnaire.Json.Printer

/-! # Question specifications

A specification says what a question asks, how it is answered and which answers
lead on. An entry of a document is classified by the tag of its answer format
before anything else is looked at.
-/

namespace Questionnaire

inductive FormatSpec where
  | select (multiple : Bool) (options : List String)
  | text
  deriving DecidableEq, Repr

namespace FormatSpec

def typeName : FormatSpec → String
  | select _ _ => "select"
  | text => "text"

def toJson (f : FormatSpec) : Json :=
  match f with
  | select multiple options =>
    .object [("type", .string f.typeName), ("multiple", .bool multiple),
      ("options", .array (options.map .string))]
  | text => .object [("type", .string f.typeName)]

end FormatSpec

structure QuestionSpec where
  title : String
  description : Option String := none
  format : FormatSpec
  next : Table String := ∅
  deriving DecidableEq

def QuestionSpec.toJson (q : QuestionSpec) : Json :=
  .object <|
    ("title", .string q.title) ::
    (match q.description with
      | some d => [("description", .string d)]
      | none => []) ++
    [("format", q.format.toJson),
      ("next", .object (q.next.entries.map fun e => (e.1, .string e.2)))]

/-- Why an entry is no question. -/
inductive SpecError where
  | unknownFormat (tag : String)
  | missingFormatType
  | malformed (cause : Json.Error)
  deriving DecidableEq, Repr

def SpecError.message : SpecError → String
  | unknownFormat tag => "Unknown answer format: " ++ tag
  | missingFormatType => "Question has no answer format type"
  | malformed cause => "Malformed question: " ++ cause.message

end Questionnaire

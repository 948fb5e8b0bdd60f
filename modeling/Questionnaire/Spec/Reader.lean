import Questionnaire.Spec.Basic

/-! # Reading specifications

A question is read from its entry, whose members are visited in the order of
their keys: the first badly typed member is reported, and a missing one only
when all others are well typed. A format can also be read from a text.
-/

namespace Questionnaire

namespace Json

def found : Json → Found
  | .null => .null
  | .bool b => .bool b
  | .integer i => .integer i
  | .decimal d => .decimal d
  | .string s => .string s
  | .array _ => .list
  | .object _ => .map

def asString : Json → Except Error String
  | .string s => .ok s
  | v => .error (.wrongType v.found .string)

def asOptionalString : Json → Except Error (Option String)
  | .null => .ok none
  | v => v.asString.map some

def asBool : Json → Except Error Bool
  | .bool b => .ok b
  | v => .error (.wrongType v.found .bool)

def asStrings : Json → Except Error (List String)
  | .array vs => vs.mapM asString
  | v => .error (.wrongType v.found .list)

/-- Reads a member, if it is there. -/
def member? {α : Type} (key : String) (read : Json → Except Error α) (v : Json) :
    Except Error (Option α) :=
  match v.get? key with
  | none => .ok none
  | some x => (read x).map some

def asStringTable : Json → Except Error (Table String)
  | .object ms => ms.foldlM (fun t m => return t.put m.1 (← m.2.asString)) Table.empty
  | v => .error (.wrongType v.found .map)

end Json

open Json (Error)

namespace FormatSpec

inductive Tag where
  | select
  | text
  deriving DecidableEq, Repr

def Tag.ofName? : String → Option Tag
  | "select" => some .select
  | "text" => some .text
  | _ => none

/-- What a select has been given so far. -/
structure SelectFields where
  multiple : Option Bool := none
  options : Option (List String) := none

def SelectFields.set (key : String) (v : Json) (f : SelectFields) :
    Except Error SelectFields :=
  match key with
  | "multiple" =>
    if f.multiple.isSome then throw (.duplicateField key)
    else return { f with multiple := some (← v.asBool) }
  | "options" =>
    if f.options.isSome then throw (.duplicateField key)
    else return { f with options := some (← v.asStrings) }
  | _ => return f

/-- A format by its tag and its other members as written. A text has none of its own. -/
def ofMembers (tag : Tag) (ms : List (String × Json)) : Except Error FormatSpec :=
  match tag with
  | .text => return .text
  | .select => do
    let f ← ms.foldlM (fun (f : SelectFields) m => f.set m.1 m.2) {}
    return .select (f.multiple.getD false) (f.options.getD [])

/-- A format by its tag and the items behind it. -/
def ofItems (tag : Tag) (vs : List Json) : Except Error FormatSpec :=
  match tag, vs with
  | .text, [] => return .text
  | .text, _ => throw (.longList vs.length 0)
  | .select, [] => return .select false []
  | .select, [m] => return .select (← m.asBool) []
  | .select, m :: o :: rest => do
    let multiple ← m.asBool
    let options ← o.asStrings
    if rest.isEmpty then return .select multiple options
    else throw (.longList vs.length 2)

/-- A format by its tag and the value that holds its members. -/
def ofFields (tag : Tag) (format : Json) : Except Error FormatSpec :=
  match tag with
  | .text => return .text
  | .select => do
    let multiple ← format.member? "multiple" Json.asBool
    let options ← format.member? "options" Json.asStrings
    return .select (multiple.getD false) (options.getD [])

open Json.Source

def tagOfSource (s : Json.Source) : Except Error Tag := do
  let name ← s.asString .formatTag
  match Tag.ofName? name with
  | some tag => return tag
  | none => throw (.unknownFormat name)

/-- The tag among the members of a tree, and the other members as values. -/
def splitMembers (nesting : Nat) :
    Option Tag → List (Json.StringLiteral × Json.Source) →
      Except Error (Option Tag × List (String × Json))
  | tag, [] => return (tag, [])
  | tag, (l, s) :: ms => do
    let k ← literalText l
    if k = "type" then
      if tag.isSome then throw (.duplicateField "type")
      let t ← tagOfSource s
      splitMembers nesting (some t) ms
    else
      let v ← s.asJson nesting
      let (tag, vs) ← splitMembers nesting tag ms
      return (tag, (k, v) :: vs)

def ofSource (nesting : Nat) : Json.Source → Except Error FormatSpec
  | .object members ending => do
    let nesting ← enter nesting
    let (tag, ms) ← splitMembers nesting none members
    close ending
    match tag with
    | none => throw (.missingField "type")
    | some tag => ofMembers tag ms
  | .array [] ending => do
    let _ ← enter nesting
    close ending
    throw (.missingField "type")
  | .array (s :: ss) ending => do
    let nesting ← enter nesting
    let tag ← tagOfSource s
    let vs ← itemsAsJson nesting ss
    close ending
    ofItems tag vs
  | s => throw (s.mismatch .formatSpec)

def ofText (text : String) : Except Error FormatSpec := Json.read ofSource text

end FormatSpec

namespace QuestionSpec

def required {α : Type} (name : String) : Option α → Except Error α
  | some a => .ok a
  | none => .error (.missingField name)

/-- A question by the tag of its format, the value of its format, and its entry. -/
def ofFields (tag : FormatSpec.Tag) (format entry : Json) : Except Error QuestionSpec := do
  let description ← entry.member? "description" Json.asOptionalString
  let format ← FormatSpec.ofFields tag format
  let next ← entry.member? "next" Json.asStringTable
  let title ← entry.member? "title" Json.asString
  return { title := ← required "title" title, description := description.join, format,
           next := ← required "next" next }

/-- Reads an entry. The tag of its format is looked at first. -/
def ofJson (entry : Json) : Except SpecError QuestionSpec :=
  match entry.get? "format" with
  | none => .error .missingFormatType
  | some format =>
    match format.get? "type" with
    | none => .error .missingFormatType
    | some (.string name) =>
      match FormatSpec.Tag.ofName? name with
      | none => .error (.unknownFormat name)
      | some tag => (ofFields tag format entry).mapError .malformed
    | some tag => .error (.unknownFormat tag.text)

end QuestionSpec

end Questionnaire

import Questionnaire.Decimal.Basic
import Questionnaire.Text.Quoted

/-! # Errors in JSON documents

A fault says how a text fails to be JSON. An error is a fault or says how a well
formed document fails to have the shape that is read from it.
-/

namespace Questionnaire.Json

inductive Fault where
  | endOfValue
  | endOfList
  | endOfObject
  | endOfString
  | colonMissing
  | listEndMissing
  | objectEndMissing
  | unknownWord
  | valueMissing
  | invalidEscape
  | invalidNumber
  | numberOutOfRange
  | controlCharacter
  | keyNotString
  | loneSurrogate
  | unfinishedPair
  | trailingComma
  | trailingCharacters
  | tooDeep
  deriving DecidableEq, Repr

namespace Fault

/-- The text ended where more was needed. -/
def isEnd : Fault → Bool
  | endOfValue | endOfList | endOfObject | endOfString => true
  | _ => false

def message : Fault → String
  | endOfValue => "EOF while parsing a value"
  | endOfList => "EOF while parsing a list"
  | endOfObject => "EOF while parsing an object"
  | endOfString => "EOF while parsing a string"
  | colonMissing => "expected `:`"
  | listEndMissing => "expected `,` or `]`"
  | objectEndMissing => "expected `,` or `\x7d`"
  | unknownWord => "expected ident"
  | valueMissing => "expected value"
  | invalidEscape => "invalid escape"
  | invalidNumber => "invalid number"
  | numberOutOfRange => "number out of range"
  | controlCharacter => "control character (\\u0000-\\u001F) found while parsing a string"
  | keyNotString => "key must be a string"
  | loneSurrogate => "lone leading surrogate in hex escape"
  | unfinishedPair => "unexpected end of hex escape"
  | trailingComma => "trailing comma"
  | trailingCharacters => "trailing characters"
  | tooDeep => "recursion limit exceeded"

end Fault

/-- What stands in a document. -/
inductive Found where
  | null
  | bool (b : Bool)
  | integer (i : Int)
  | decimal (d : Decimal)
  | string (s : String)
  | list
  | map
  deriving DecidableEq, Repr

def Found.description : Found → String
  | null => "null"
  | bool b => "boolean `" ++ (if b then "true" else "false") ++ "`"
  | integer i => "integer `" ++ toString i ++ "`"
  | decimal d => "floating point `" ++ d.text ++ "`"
  | string s => "string " ++ Text.quoted s
  | list => "sequence"
  | map => "map"

/-- What a reader looks for. -/
inductive Expected where
  | string
  | bool
  | list
  | map
  | record (name : String)
  | formatSpec
  | formatTag
  deriving DecidableEq, Repr

def Expected.description : Expected → String
  | string => "a string"
  | bool => "a boolean"
  | list => "a sequence"
  | map => "a map"
  | record name => "struct " ++ name
  | formatSpec => "internally tagged enum FormatSpec"
  | formatTag => "variant identifier"

inductive Error where
  | fault (f : Fault)
  | wrongType (found : Found) (expected : Expected)
  | missingField (name : String)
  | duplicateField (name : String)
  | unknownFormat (tag : String)
  | shortRecord (found : Nat) (name : String) (size : Nat)
  | longList (found : Nat) (expected : Nat)
  deriving DecidableEq, Repr

def Error.message : Error → String
  | fault f => f.message
  | wrongType found expected =>
    "invalid type: " ++ found.description ++ ", expected " ++ expected.description
  | missingField name => "missing field `" ++ name ++ "`"
  | duplicateField name => "duplicate field `" ++ name ++ "`"
  | unknownFormat tag => "unknown variant `" ++ tag ++ "`, expected `select` or `text`"
  | shortRecord found name size =>
    "invalid length " ++ toString found ++ ", expected struct " ++ name ++ " with " ++
      toString size ++ (if size = 1 then " element" else " elements")
  | longList found expected =>
    "invalid length " ++ toString found ++ ", expected " ++ toString expected ++
      (if expected = 1 then " element in sequence" else " elements in sequence")

end Questionnaire.Json

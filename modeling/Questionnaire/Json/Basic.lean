import Questionnaire.Decimal.Basic
import Questionnaire.Table

/-! # JSON values

A document that has been read keeps the members of an object in the order of
their keys, each key once with the last value given to it.
-/

namespace Questionnaire

inductive Json where
  | null
  | bool (b : Bool)
  | integer (i : Int)
  | decimal (d : Decimal)
  | string (s : String)
  | array (items : List Json)
  | object (members : List (String × Json))
  deriving Inhabited

namespace Json

/-- The object that results from setting members one after another. -/
def ofMembers (ms : List (String × Json)) : Json :=
  .object (ms.foldl (fun t m => putSorted m.1 m.2 t) [])

def get? (key : String) : Json → Option Json
  | .object ms => ms.lookup key
  | _ => none

mutual

/-- The same value with the members of every object in the order of their keys. -/
def sorted : Json → Json
  | .array items => .array (sortedItems items)
  | .object ms => ofMembers (sortedMembers ms)
  | v => v

def sortedItems : List Json → List Json
  | [] => []
  | v :: vs => v.sorted :: sortedItems vs

def sortedMembers : List (String × Json) → List (String × Json)
  | [] => []
  | (k, v) :: ms => (k, v.sorted) :: sortedMembers ms

end

end Json

end Questionnaire

import Questionnaire.Json.Literal

/-! # Source trees

A source tree shows a document in the order of its text, repeated members
included. Where the text stops being JSON the tree ends in a fault, so that
readers of the tree meet errors in the order of the text.
-/

namespace Questionnaire.Json

inductive Source where
  | null
  | bool (b : Bool)
  | number (literal : Except Fault NumberLiteral)
  | string (literal : StringLiteral)
  /-- The items and the fault, if any, that stands in the place of the closing bracket. -/
  | array (items : List Source) (ending : Option Fault)
  /-- The members and the fault, if any, that stands in the place of the closing brace. -/
  | object (members : List (StringLiteral × Source)) (ending : Option Fault)
  | broken (f : Fault)

namespace Source

def isSpace (c : Char) : Bool := c = ' ' || c = '\n' || c = '\t' || c = '\r'

def skipSpace (cs : List Char) : List Char := cs.dropWhile isSpace

/-- A word behind its first letter. -/
def scanWord (v : Source) : List Char → List Char → Source × List Char
  | [], cs => (v, cs)
  | _ :: _, [] => (.broken .endOfValue, [])
  | w :: ws, c :: cs => if w = c then scanWord v ws cs else (.broken .unknownWord, cs)

mutual

def scanValue : Nat → List Char → Source × List Char
  | 0, cs => (.broken .valueMissing, cs)
  | fuel + 1, cs =>
    match skipSpace cs with
    | [] => (.broken .endOfValue, [])
    | '"' :: r => let (s, r) := stringLiteral r; (.string s, r)
    | '[' :: r =>
      match skipSpace r with
      | [] => (.array [] (some .endOfList), [])
      | ']' :: r => (.array [] none, r)
      | r => let (items, ending, r) := scanItems fuel r; (.array items ending, r)
    | '\x7b' :: r =>
      match skipSpace r with
      | [] => (.object [] (some .endOfObject), [])
      | '\x7d' :: r => (.object [] none, r)
      | r => let (members, ending, r) := scanMembers fuel r; (.object members ending, r)
    | 'n' :: r => scanWord .null ['u', 'l', 'l'] r
    | 't' :: r => scanWord (.bool true) ['r', 'u', 'e'] r
    | 'f' :: r => scanWord (.bool false) ['a', 'l', 's', 'e'] r
    | '-' :: r =>
      match scanNumber true r with
      | .ok (n, r) => (.number (.ok n), r)
      | .error f => (.number (.error f), r)
    | c :: r =>
      if (digit? c).isSome then
        match scanNumber false (c :: r) with
        | .ok (n, r) => (.number (.ok n), r)
        | .error f => (.number (.error f), r)
      else (.broken .valueMissing, c :: r)

/-- An item and those behind it, up to the closing bracket. -/
def scanItems : Nat → List Char → List Source × Option Fault × List Char
  | 0, cs => ([], some .listEndMissing, cs)
  | fuel + 1, cs =>
    let (v, r) := scanValue fuel cs
    match skipSpace r with
    | [] => ([v], some .endOfList, [])
    | ']' :: r => ([v], none, r)
    | ',' :: r =>
      match skipSpace r with
      | [] => ([v], some .endOfValue, [])
      | ']' :: r => ([v], some .trailingComma, r)
      | r => let (vs, ending, r) := scanItems fuel r; (v :: vs, ending, r)
    | r => ([v], some .listEndMissing, r)

/-- A member and those behind it, up to the closing brace. -/
def scanMembers : Nat → List Char → List (StringLiteral × Source) × Option Fault × List Char
  | 0, cs => ([], some .objectEndMissing, cs)
  | fuel + 1, cs =>
    match cs with
    | '"' :: r =>
      let (k, r) := stringLiteral r
      match skipSpace r with
      | [] => ([(k, .broken .endOfObject)], none, [])
      | ':' :: r =>
        let (v, r) := scanValue fuel r
        match skipSpace r with
        | [] => ([(k, v)], some .endOfObject, [])
        | '\x7d' :: r => ([(k, v)], none, r)
        | ',' :: r =>
          match skipSpace r with
          | [] => ([(k, v)], some .endOfValue, [])
          | '\x7d' :: r => ([(k, v)], some .trailingComma, r)
          | r => let (ms, ending, r) := scanMembers fuel r; ((k, v) :: ms, ending, r)
        | r => ([(k, v)], some .objectEndMissing, r)
      | r => ([(k, .broken .colonMissing)], none, r)
    | _ => ([], some .keyNotString, cs)

end

/-- The tree at the front of a text, and the text behind it. -/
def scan (cs : List Char) : Source × List Char := scanValue (2 * cs.length + 2) cs

end Source

end Questionnaire.Json

import Questionnaire.Json.Source

/-! # Reading documents

Readers turn a source tree into a value and report the first error in the order
of the text. Each carries the number of containers that may still be nested in
the place where it reads.
-/

namespace Questionnaire.Json

namespace Fault

/-- The same fault in a value that is skipped. -/
def whenSkipped (ending : Fault) : Fault → Fault
  | .trailingComma => ending
  | f => f

end Fault

namespace Source

def found : Source → Except Fault Found
  | .null => .ok .null
  | .bool b => .ok (.bool b)
  | .number (.error f) => .error f
  | .number (.ok l) =>
    match l.value? with
    | some (.integer i) => .ok (.integer i)
    | some (.decimal d) => .ok (.decimal d)
    | _ => .error .numberOutOfRange
  | .string l => l.text.map .string
  | .array _ _ => .ok .list
  | .object _ _ => .ok .map
  | .broken f => .error f

/-- The error of a value that stands in the place of another. -/
def mismatch (s : Source) (expected : Expected) : Error :=
  match s.found with
  | .ok found => .wrongType found expected
  | .error f => .fault f

def close : Option Fault → Except Error Unit
  | none => .ok ()
  | some f => .error (.fault f)

def literalText (l : StringLiteral) : Except Error String :=
  match l.text with
  | .ok s => .ok s
  | .error f => .error (.fault f)

/-- The nesting left inside a container. -/
def enter (nesting : Nat) : Except Error Nat :=
  if nesting ≤ 1 then .error (.fault .tooDeep) else .ok (nesting - 1)

def asString (expected : Expected) : Source → Except Error String
  | .string l => literalText l
  | s => .error (s.mismatch expected)

def asOptionalString : Source → Except Error (Option String)
  | .null => .ok none
  | s => (s.asString .string).map some

def asBool : Source → Except Error Bool
  | .bool b => .ok b
  | s => .error (s.mismatch .bool)

mutual

/-- The value of a tree, whatever it is. -/
def asJson (nesting : Nat) : Source → Except Error Json
  | .null => .ok .null
  | .bool b => .ok (.bool b)
  | .number (.error f) => .error (.fault f)
  | .number (.ok l) =>
    match l.value? with
    | some v => .ok v
    | none => .error (.fault .numberOutOfRange)
  | .string l => (literalText l).map .string
  | .array items ending => do
    let nesting ← enter nesting
    let vs ← itemsAsJson nesting items
    close ending
    return .array vs
  | .object members ending => do
    let nesting ← enter nesting
    let ms ← membersAsJson nesting members
    close ending
    return Json.ofMembers ms
  | .broken f => .error (.fault f)

def itemsAsJson (nesting : Nat) : List Source → Except Error (List Json)
  | [] => .ok []
  | s :: ss => do
    let v ← asJson nesting s
    return v :: (← itemsAsJson nesting ss)

def membersAsJson (nesting : Nat) :
    List (StringLiteral × Source) → Except Error (List (String × Json))
  | [] => .ok []
  | (l, s) :: ms => do
    let k ← literalText l
    let v ← asJson nesting s
    return (k, v) :: (← membersAsJson nesting ms)

end

mutual

/-- Passes over a value of any shape and depth; numbers of any size and lone surrogates
are let through. -/
def skip : Source → Except Error Unit
  | .number (.error _) => .error (.fault .invalidNumber)
  | .string l => close l.shape
  | .array items ending => do
    skipItems items
    close (ending.map (Fault.whenSkipped .valueMissing))
  | .object members ending => do
    skipMembers members
    match ending with
    | some .endOfValue => .error (.fault .endOfObject)
    | ending => close (ending.map (Fault.whenSkipped .keyNotString))
  | .broken f => .error (.fault f)
  | _ => .ok ()

def skipItems : List Source → Except Error Unit
  | [] => .ok ()
  | s :: ss => do
    skip s
    skipItems ss

def skipMembers : List (StringLiteral × Source) → Except Error Unit
  | [] => .ok ()
  | (l, s) :: ms => do
    close l.shape
    skip s
    skipMembers ms

end

/-- A map from texts; the last value of a key wins. -/
def asTable {α : Type} (read : Nat → Source → Except Error α) (nesting : Nat) :
    Source → Except Error (Table α)
  | .object members ending => do
    let nesting ← enter nesting
    let table ← members.foldlM (fun t (l, s) => do
      let k ← literalText l
      return t.put k (← read nesting s)) Table.empty
    close ending
    return table
  | s => .error (s.mismatch .map)

/-- A record with named fields. `set` reads one field into the record. -/
structure Shape (σ : Type) where
  name : String
  fields : List String
  required : List String
  blank : σ
  set : Nat → String → Source → σ → Except Error σ

namespace Shape

variable {σ : Type}

/-- Members in the order of the text, with the names of the fields seen so far. -/
def readMembers (shape : Shape σ) (nesting : Nat) (seen : List String) (record : σ) :
    List (StringLiteral × Source) → Except Error (List String × σ)
  | [] => .ok (seen, record)
  | (l, s) :: ms => do
    let k ← literalText l
    if shape.fields.contains k then
      if seen.contains k then throw (.duplicateField k)
      let record ← shape.set nesting k s record
      readMembers shape nesting (k :: seen) record ms
    else
      skip s
      readMembers shape nesting seen record ms

/-- The end of a list behind the last field it may hold. -/
def closeList (ending : Option Fault) : List Source → Except Error Unit
  | _ :: _ => .error (.fault .trailingCharacters)
  | [] =>
    match ending with
    | none => .ok ()
    | some .endOfList => .error (.fault .endOfList)
    | some .trailingComma => .error (.fault .trailingComma)
    | some _ => .error (.fault .trailingCharacters)

/-- Fields in the order of the shape; those behind the end of the list may be left out
unless they are required. -/
def readItems (shape : Shape σ) (nesting : Nat) (ending : Option Fault) (record : σ) :
    List String → List Source → Except Error σ
  | [], items => do
    closeList ending items
    return record
  | k :: ks, s :: ss => do
    let record ← shape.set nesting k s record
    readItems shape nesting ending record ks ss
  | k :: ks, [] => do
    close ending
    match (k :: ks).find? shape.required.contains with
    | some k => throw (.shortRecord (shape.fields.idxOf k) shape.name shape.fields.length)
    | none => return record

def read (shape : Shape σ) (nesting : Nat) : Source → Except Error σ
  | .object members ending => do
    let nesting ← enter nesting
    let (seen, record) ← shape.readMembers nesting [] shape.blank members
    close ending
    match shape.required.find? (!seen.contains ·) with
    | some k => throw (.missingField k)
    | none => return record
  | .array items ending => do
    let nesting ← enter nesting
    shape.readItems nesting ending shape.blank shape.fields items
  | s => .error (s.mismatch (.record shape.name))

end Shape

end Source

/-- Containers nested deeper than this are refused. -/
def nestingLimit : Nat := 128

/-- Reads a whole text. -/
def read {α : Type} (reader : Nat → Source → Except Error α) (text : String) :
    Except Error α := do
  let (source, rest) := Source.scan text.toList
  let value ← reader nestingLimit source
  if (Source.skipSpace rest).isEmpty then return value
  else throw (.fault .trailingCharacters)

def ofText (text : String) : Except Error Json := read Source.asJson text

end Questionnaire.Json

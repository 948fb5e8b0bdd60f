import Questionnaire.Decimal.Shortest
import Questionnaire.Json.Basic
import Questionnaire.Json.Error
import Questionnaire.Text.Utf8

/-! # Number and string literals

Literals are scanned from the front of a text. A string keeps two readings: as a
text, where surrogates must come in pairs, and as a bare shape that is skipped.
-/

namespace Questionnaire.Json

/-- The signs and digits of a number as written. -/
structure NumberLiteral where
  negative : Bool
  whole : List Nat
  fraction : List Nat
  exponent : Option (Bool × List Nat)
  deriving DecidableEq, Repr

namespace NumberLiteral

def word : Nat := UInt64.size

def ofDigits (ds : List Nat) : Nat := ds.foldl (fun n d => 10 * n + d) 0

/-- Appends digits while the number stays below `2 ^ 64`, and counts those appended. -/
def takeDigits (start : Nat) : List Nat → Nat × Nat
  | [] => (start, 0)
  | d :: ds =>
    if start * 10 + d < word then
      let (n, k) := takeDigits (start * 10 + d) ds
      (n, k + 1)
    else (start, 0)

def powerOfTen (n : Nat) : Float := Float.ofScientific 1 false n

/-- A number scaled by a power of ten, in steps of at most 308 places. -/
def scale (x : Float) (e : Int) : Option Float :=
  if e.natAbs ≤ 308 then
    if 0 ≤ e then
      let y := x * powerOfTen e.natAbs
      if y.isInf then none else some y
    else some (x / powerOfTen e.natAbs)
  else if x == 0 then some x
  else if 0 ≤ e then none
  else scale (x / powerOfTen 308) (e + 308)
termination_by e.natAbs
decreasing_by omega

/-- The binary64 reading of a number by its leading digits. -/
def decimal? (l : NumberLiteral) : Option Decimal :=
  let (whole, kept) := takeDigits 0 l.whole
  let (significand, places) := takeDigits whole l.fraction
  let exponent : Int := ((l.whole.length - kept : Nat) : Int) - (places : Int)
  let signed (x : Float) : Decimal := Decimal.ofFloat (if l.negative then -x else x)
  let scaled (e : Int) : Option Decimal :=
    (scale (UInt64.ofNat significand).toFloat e).map signed
  match l.exponent with
  | none => scaled exponent
  | some (negative, digits) =>
    let e := ofDigits digits
    if e < Nat.pow 2 31 then
      scaled (if negative then exponent - (e : Int) else exponent + (e : Int))
    else if significand ≠ 0 && !negative then none
    else some (signed 0)

/-- The value of a number: an integer if it is written as one and fits a word of 64 bits,
a binary64 number otherwise. Nothing, if it is too large for that. -/
def value? (l : NumberLiteral) : Option Json :=
  let n := ofDigits l.whole
  if l.fraction.isEmpty && l.exponent.isNone then
    if !l.negative && n < word then some (.integer n)
    else if l.negative && 0 < n && n ≤ Nat.pow 2 63 then some (.integer (-n))
    else l.decimal?.map .decimal
  else l.decimal?.map .decimal

end NumberLiteral

def digit? (c : Char) : Option Nat :=
  if '0' ≤ c ∧ c ≤ '9' then some (c.toNat - '0'.toNat) else none

/-- The digits at the front of a text, and the text behind them. -/
def takeDigits : List Char → List Nat × List Char
  | [] => ([], [])
  | c :: cs =>
    match digit? c with
    | some d => let (ds, r) := takeDigits cs; (d :: ds, r)
    | none => ([], c :: cs)

/-- At least one digit; the fault tells a text that ends from one that goes on. -/
def someDigits (cs : List Char) : Except Fault (List Nat × List Char) :=
  match takeDigits cs with
  | ([], []) => .error .endOfValue
  | ([], _) => .error .invalidNumber
  | r => .ok r

def scanExponent : List Char → Except Fault (Option (Bool × List Nat) × List Char)
  | 'e' :: cs | 'E' :: cs =>
    let (negative, cs) := match cs with
      | '-' :: cs => (true, cs)
      | '+' :: cs => (false, cs)
      | cs => (false, cs)
    (someDigits cs).map fun (ds, r) => (some (negative, ds), r)
  | cs => .ok (none, cs)

def scanFraction : List Char → Except Fault (List Nat × List Char)
  | '.' :: cs => someDigits cs
  | cs => .ok ([], cs)

/-- A number behind its sign. A leading zero stands alone. -/
def scanNumber (negative : Bool) (cs : List Char) : Except Fault (NumberLiteral × List Char) := do
  let (whole, cs) ← someDigits cs
  if whole.head? = some 0 ∧ whole.length ≠ 1 then throw .invalidNumber
  let (fraction, cs) ← scanFraction cs
  let (exponent, cs) ← scanExponent cs
  return (⟨negative, whole, fraction, exponent⟩, cs)

/-- A string as scanned: its text, and the fault of its bare shape, if any. -/
structure StringLiteral where
  text : Except Fault String
  shape : Option Fault

def hexValue? (c : Char) : Option Nat :=
  if '0' ≤ c ∧ c ≤ '9' then some (c.toNat - '0'.toNat)
  else if 'a' ≤ c ∧ c ≤ 'f' then some (c.toNat - 'a'.toNat + 10)
  else if 'A' ≤ c ∧ c ≤ 'F' then some (c.toNat - 'A'.toNat + 10)
  else none

/-- Four hexadecimal digits; fewer than four bytes to the end of the document are a text
that ends. -/
def hexUnit (cs : List Char) : Except Fault (Nat × List Char) :=
  if utf8Length (cs.take 4) < 4 then .error .endOfString
  else
    match cs with
    | a :: b :: c :: d :: r =>
      match hexValue? a, hexValue? b, hexValue? c, hexValue? d with
      | some a, some b, some c, some d => .ok (((a * 16 + b) * 16 + c) * 16 + d, r)
      | _, _, _, _ => .error .invalidEscape
    | _ => .error .invalidEscape

/-- The character of a code unit, joined with the unit that follows it if it is the first
half of a pair. -/
def pairUnit (n : Nat) (cs : List Char) : Except Fault (Char × List Char) :=
  if 0xDC00 ≤ n ∧ n ≤ 0xDFFF then .error .loneSurrogate
  else if n < 0xD800 ∨ 0xDBFF < n then .ok (Char.ofNat n, cs)
  else
    match cs with
    | [] | ['\\'] => .error .endOfString
    | '\\' :: 'u' :: r =>
      match hexUnit r with
      | .error f => .error f
      | .ok (m, r) =>
        if m < 0xDC00 ∨ 0xDFFF < m then .error .loneSurrogate
        else .ok (Char.ofNat (0x10000 + (n - 0xD800) * 0x400 + (m - 0xDC00)), r)
    | _ => .error .unfinishedPair

def simpleEscape? : Char → Option Char
  | '"' => some '"'
  | '\\' => some '\\'
  | '/' => some '/'
  | 'b' => some '\x08'
  | 'f' => some '\x0c'
  | 'n' => some '\n'
  | 'r' => some '\r'
  | 't' => some '\t'
  | _ => none

/-- An escape behind its backslash: its character, or the fault of reading it as one and
where its bare shape ends. -/
def scanEscape : List Char → Except Fault (Except Fault Char × List Char)
  | [] => .error .endOfString
  | 'u' :: cs =>
    match hexUnit cs with
    | .error f => .error f
    | .ok (n, r) =>
      match pairUnit n r with
      | .ok (c, r) => .ok (.ok c, r)
      | .error f => .ok (.error f, r)
  | c :: cs =>
    match simpleEscape? c with
    | some d => .ok (.ok d, cs)
    | none => .error .invalidEscape

/-- The rest of a string behind its opening quote. `fault` is the first fault among its
escapes and `done` the text before, last character first. -/
def scanString : Nat → Option Fault → List Char → List Char → StringLiteral × List Char
  | 0, _, _, cs => (⟨.error .endOfString, some .endOfString⟩, cs)
  | fuel + 1, fault, done, cs =>
    let broken (f : Fault) : StringLiteral := ⟨.error (fault.getD f), some f⟩
    match cs with
    | [] => (broken .endOfString, [])
    | '"' :: r =>
      (⟨match fault with
        | none => .ok (String.ofList done.reverse)
        | some f => .error f, none⟩, r)
    | '\\' :: r =>
      match scanEscape r with
      | .error f => (broken f, r)
      | .ok (.ok c, r) => scanString fuel fault (c :: done) r
      | .ok (.error f, r) => scanString fuel (some (fault.getD f)) done r
    | c :: r =>
      if c.toNat < 32 then (broken .controlCharacter, r)
      else scanString fuel fault (c :: done) r

def stringLiteral (cs : List Char) : StringLiteral × List Char :=
  scanString (cs.length + 1) none [] cs

end Questionnaire.Json

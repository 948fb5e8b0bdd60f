import Questionnaire.Text.Search

/-! # Character references

Attribute values are written with four references and read with every numeric
one and five by name. What is no reference stands for itself.
-/

namespace Questionnaire.Markup

open Text

def escapeChar : Char → List Char
  | '&' => "&amp;".toList
  | '<' => "&lt;".toList
  | '>' => "&gt;".toList
  | '"' => "&quot;".toList
  | c => [c]

def escape (cs : List Char) : List Char := cs.flatMap escapeChar

def escapeAttribute (s : String) : String := String.ofList (escape s.toList)

def digitIn? (radix : Nat) (c : Char) : Option Nat :=
  let n :=
    if '0' ≤ c ∧ c ≤ '9' then c.toNat - '0'.toNat
    else if 'a' ≤ c ∧ c ≤ 'z' then c.toNat - 'a'.toNat + 10
    else if 'A' ≤ c ∧ c ≤ 'Z' then c.toNat - 'A'.toNat + 10
    else radix
  if n < radix then some n else none

/-- A number of at most 32 bits. A plus sign may stand before its digits. -/
def numeral? (radix : Nat) (cs : List Char) : Option Nat :=
  let digits := match cs with
    | '+' :: r => r
    | cs => cs
  if digits.isEmpty then none
  else
    match digits.mapM (digitIn? radix) with
    | none => none
    | some ds =>
      let n := ds.foldl (fun n d => radix * n + d) 0
      if n < UInt32.size then some n else none

def scalar? (n : Nat) : Option Char :=
  if n.isValidChar then some (Char.ofNat n) else none

/-- The number of a reference behind its number sign. -/
def referenceNumber? : List Char → Option Nat
  | 'x' :: hex | 'X' :: hex => numeral? 16 hex
  | cs => numeral? 10 cs

/-- The character that a reference stands for, by what is between `&` and `;`. -/
def reference? (name : List Char) : Option Char :=
  if name = "amp".toList then some '&'
  else if name = "lt".toList then some '<'
  else if name = "gt".toList then some '>'
  else if name = "quot".toList then some '"'
  else if name = "apos".toList then some '\''
  else
    match name with
    | '#' :: cs => (referenceNumber? cs).bind scalar?
    | _ => none

/-- The reference behind an ampersand, and the text behind its semicolon. -/
def cutReference? (cs : List Char) : Option (Char × List Char) :=
  match cutAt? [';'] cs with
  | none => none
  | some (name, rest) => (reference? name).map (·, rest)

theorem length_lt_of_cutReference? {cs r : List Char} {c : Char}
    (h : cutReference? cs = some (c, r)) : r.length < cs.length := by
  rw [cutReference?] at h
  split at h
  · simp at h
  · next name rest hc =>
    simp only [Option.map_eq_some_iff, Prod.mk.injEq] at h
    obtain ⟨_, _, _, rfl⟩ := h
    exact length_lt_of_cutAt? (by simp) hc

/-- Replaces every reference by its character, from left to right. -/
def decode (cs : List Char) : List Char :=
  match cs with
  | [] => []
  | c :: cs =>
    if c = '&' then
      match _h : cutReference? cs with
      | some (d, rest) => d :: decode rest
      | none => c :: decode cs
    else c :: decode cs
termination_by cs.length
decreasing_by
  all_goals simp_wf
  · have := length_lt_of_cutReference? _h
    omega

end Questionnaire.Markup

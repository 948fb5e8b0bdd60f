import Mathlib.Data.PFun
import Questionnaire.Markup.Parser
import Questionnaire.Proofs.Text.Bytes

/-! # The parser as a walk over byte offsets

The loops of the parser, of the attributes of a tag and of the references of a value move an
offset over their text and slice it there. A slice that is none ends the walk without a result, and
so does a loop without a last round.
-/

namespace Questionnaire.Markup.Cursor

open Text

section Loop

variable {σ β : Type} (round : σ → Option (β ⊕ σ)) (s : σ)

/-- What a loop comes to from a state on. A round ends it with a result or hands over the state of
the next one. There is no result if a round fails, or if no round is the last one. -/
noncomputable def loop? : Option β :=
  open Classical in (PFun.fix (fun s => Part.ofOption (round s)) s).toOption

theorem loop?_eq_some_iff {b : β} : loop? round s = some b ↔
    round s = some (.inl b) ∨ ∃ s', round s = some (.inr s') ∧ loop? round s' = some b := by
  have hmem (s : σ) : loop? round s = some b ↔
      b ∈ PFun.fix (fun s => Part.ofOption (round s)) s := by
    classical exact Part.toOption_eq_some_iff
  refine (hmem s).trans (PFun.mem_fix_iff.trans ?_)
  simp only [hmem, Part.mem_ofOption, Option.mem_def]

theorem loop?_eq : loop? round s = (round s).bind (Sum.elim some (loop? round)) := by
  refine Option.ext fun b => ?_
  rw [loop?_eq_some_iff]
  rcases round s with _ | b' | s' <;> simp

end Loop

def reference? (rest : List Char) : Option (Option (Char × Nat)) := do
  match findMark? [';'] rest with
  | none => return none
  | some semicolon => do
    let name ← range? rest 1 semicolon
    return (Markup.reference? name).map (·, semicolon + 1)

/-- One round of the loop over the references of a value: what it writes, and the rest that the
next round begins with unless the loop is over. -/
def decodeRound? (rest : List Char) : Option (List Char × Option (List Char)) := do
  match findMark? ['&'] rest with
  | none => return (rest, none)
  | some start => do
    let before ← takeBytes? rest start
    let rest ← dropBytes? rest start
    match ← reference? rest with
    | some (c, consumed) => return (before ++ [c], some (← dropBytes? rest consumed))
    | none => return (before ++ ['&'], some (← dropBytes? rest 1))

def decodeStep? : List Char × List Char → Option (List Char ⊕ List Char × List Char)
  | (out, rest) => (decodeRound? rest).map fun
    | (written, none) => .inl (out ++ written)
    | (written, some rest) => .inr (out ++ written, rest)

noncomputable def decode? (value : List Char) : Option (List Char) := loop? decodeStep? ([], value)

/-- A value in quotes, and the offset behind it in the tag; none if it is not closed. -/
noncomputable def quotedValue? (quote : Char) (rest : List Char) (pos : Nat) :
    Option (Option (String × Nat)) := do
  match findMark? [quote] (← dropBytes? rest 1) with
  | none => return none
  | some close => do
    let value ← decode? (← range? rest 1 (close + 1))
    return some (String.ofList value, pos + (close + 2))

noncomputable def value? (input : List Char) (pos : Nat) : Option (Option (String × Nat)) := do
  let rest ← dropBytes? input pos
  match rest with
  | '"' :: _ => quotedValue? '"' rest pos
  | '\'' :: _ => quotedValue? '\'' rest pos
  | _ =>
    let length := (find? Tag.endsBareValue rest).getD (utf8Length rest)
    let value ← decode? (← takeBytes? rest length)
    return some (String.ofList value, pos + length)

/-- What a round of the loop over attributes comes to: the tag is not closed, it ends, a slash is
passed over or an attribute has been read. -/
inductive Round where
  | unclosed
  | closed (selfClosing : Bool) (consumed : Nat)
  | skipped (pos : Nat)
  | read (name : String) (value : Option String) (pos : Nat)

/-- The offset behind the blanks at an offset, which are counted by what the text loses. -/
def skipBlanks? (input : List Char) (pos : Nat) : Option Nat := do
  let rest ← dropBytes? input pos
  return pos + (← sub? (utf8Length rest) (utf8Length (trimStart rest)))

noncomputable def attribute? (input : List Char) (pos : Nat) (rest : List Char) : Option Round := do
  let length := (find? Tag.endsAttributeName rest).getD (utf8Length rest)
  let name ← takeBytes? rest length
  let behind ← dropBytes? input (pos + length)
  match dropMark? ['='] (trimStart behind) with
  | some value => do
    let blanks ← sub? (utf8Length behind) (utf8Length (trimStart behind))
    let indent ← sub? (utf8Length value) (utf8Length (trimStart value))
    match ← value? input (pos + length + (blanks + 1) + indent) with
    | some (v, pos) => return .read (lower name) (some v) pos
    | none => return .unclosed
  | none => return .read (lower name) none (pos + length)

noncomputable def attributeRound? (input : List Char) (pos : Nat) : Option Round := do
  let pos ← skipBlanks? input pos
  let rest ← dropBytes? input pos
  match rest with
  | [] => return .unclosed
  | '>' :: _ => return .closed false (pos + 1)
  | '/' :: '>' :: _ => return .closed true (pos + 2)
  | '/' :: _ => return .skipped (pos + 1)
  | _ => attribute? input pos rest

def Round.behind (as : List (String × Option String)) : Round →
    Option (List (String × Option String) × Bool × Nat) ⊕ List (String × Option String) × Nat
  | .unclosed => .inl none
  | .closed selfClosing consumed => .inl (some (as, selfClosing, consumed))
  | .skipped pos => .inr (as, pos)
  | .read name value pos => .inr (as ++ [(name, value)], pos)

noncomputable def attributeStep? (input : List Char) : List (String × Option String) × Nat →
    Option (Option (List (String × Option String) × Bool × Nat) ⊕
      List (String × Option String) × Nat)
  | (as, pos) => (attributeRound? input pos).map (Round.behind as)

/-- The attributes of a tag, whether it closes itself and the offset behind it, none if it is not
closed. -/
noncomputable def attributes? (input : List Char) (pos : Nat) :
    Option (Option (List (String × Option String) × Bool × Nat)) :=
  loop? (attributeStep? input) ([], pos)

noncomputable def startTag? (input : List Char) : Option (Option (Tag × Bool × Nat)) := do
  match find? Tag.endsName (← dropBytes? input 1) with
  | none => return none
  | some length => do
    let name ← range? input 1 (1 + length)
    return (← attributes? input (1 + length)).map fun (as, selfClosing, consumed) =>
      (⟨lower name, as⟩, selfClosing, consumed)

def rawChildren? (rest : List Char) (stop : Nat) : Option (List Node) :=
  if 0 < stop then (takeBytes? rest stop).map fun body => [.text (String.ofList body)]
  else some []

/-- Opens an element at the offset behind its tag; a raw body is passed over with it. Its end is
searched in the text in lower case. -/
def openElement? (input : List Char) (pos : Nat) (tag : Tag) (selfClosing : Bool) (b : Builder) :
    Option (Nat × Builder) := do
  if selfClosing || tag.isVoid then return (pos, b.append [.element tag []])
  else if tag.isRaw then
    let rest ← dropBytes? input pos
    let stop := (findMark? ('<' :: '/' :: tag.name.toList) (rest.map Char.toLower)).getD
      (utf8Length rest)
    return (pos + stop, { b with opened := ⟨tag, ← rawChildren? rest stop⟩ :: b.opened })
  else return (pos, { b with opened := ⟨tag, []⟩ :: b.opened })

noncomputable def tagAt? (rest : List Char) : Option (Option (Tag × Bool × Nat)) := do
  if rest.head? = some '<' then
    if (← dropBytes? rest 1).head?.any Token.isLetter then startTag? rest else return none
  else return none

def textEnd : List Char → Nat
  | [] => 0
  | c :: cs => c.utf8Size + (find? (· = '<') cs).getD (utf8Length cs)

noncomputable def round? (input : List Char) (pos : Nat) (b : Builder) :
    Option (Nat × Builder) := do
  let rest ← dropBytes? input pos
  match dropMark? "<!--".toList rest with
  | some body =>
    match findMark? "-->".toList body with
    | some stop =>
      let comment ← takeBytes? body stop
      return (pos + (4 + stop + 3), b.append [.comment (String.ofList comment)])
    | none => return (pos + utf8Length rest, b.append [.comment (String.ofList body)])
  | none =>
  if "<!".toList <+: rest ∨ "<?".toList <+: rest then
    let stop := ((findMark? ['>'] rest).map (· + 1)).getD (utf8Length rest)
    let source ← takeBytes? rest stop
    return (pos + stop, b.append [.declaration (String.ofList source)])
  else
  match dropMark? "</".toList rest with
  | some body =>
    let stop := (findMark? ['>'] body).getD (utf8Length body)
    let name ← takeBytes? body stop
    return (pos + min (2 + stop + 1) (utf8Length rest), b.step (.close (lower (trim name))))
  | none =>
  match ← tagAt? rest with
  | some (tag, selfClosing, consumed) => openElement? input (pos + consumed) tag selfClosing b
  | none =>
    let source ← takeBytes? rest (textEnd rest)
    return (pos + textEnd rest, b.append [.text (String.ofList source)])

noncomputable def step? (input : List Char) : Nat × Builder → Option (List Node ⊕ Nat × Builder)
  | (pos, b) =>
    if pos < utf8Length input then (round? input pos b).map .inr else some (.inl b.finish)

noncomputable def run? (input : List Char) (pos : Nat) (b : Builder) : Option (List Node) :=
  loop? (step? input) (pos, b)

/-- The document of a markup, if the walk over it ends and slices it between characters only. -/
noncomputable def parse? (markup : String) : Option (List Node) := run? markup.toList 0 {}

end Questionnaire.Markup.Cursor

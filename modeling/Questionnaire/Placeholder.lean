import Questionnaire.Event
import Questionnaire.Text.Search
import Questionnaire.Text.Utf8

/-! # Placeholders

A placeholder is a key between an opening and a closing mark. An opening mark
goes with the nearest closing mark behind it, and a key lies on one line. A pass
replaces the placeholders whose keys are bound and does not look into the texts
it has put in.
-/

namespace Questionnaire

structure Marks where
  opening : List Char
  closing : List Char
  deriving DecidableEq, Repr

namespace Marks

/-- The marks of data fields. -/
def field : Marks := ⟨['\x7b'], ['\x7d']⟩

/-- The marks of terms. -/
def term : Marks := ⟨['['], [']']⟩

end Marks

inductive Piece where
  | text (cs : List Char)
  | hole (key : List Char)
  deriving DecidableEq, Repr

abbrev Bindings := Table String

namespace Piece

open Text

/-- Cuts markup into plain text and placeholders. Marks that are empty mark nothing. -/
def scan (m : Marks) (cs : List Char) : List Piece :=
  if _hm : m.opening = [] ∨ m.closing = [] then [.text cs]
  else
    match _h : cutAt? m.opening cs with
    | none => [.text cs]
    | some (before, behind) =>
      match _hr : cutAt? m.closing behind with
      | none => [.text cs]
      | some (key, rest) =>
        if '\n' ∈ key then .text (before ++ m.opening) :: scan m behind
        else .text before :: .hole key :: scan m rest
termination_by cs.length
decreasing_by
  · exact length_lt_of_cutAt? (fun h => _hm (.inl h)) _h
  · exact Nat.lt_trans (length_lt_of_cutAt? (fun h => _hm (.inr h)) _hr)
      (length_lt_of_cutAt? (fun h => _hm (.inl h)) _h)

/-- The characters a piece was cut from. -/
def source (m : Marks) : Piece → List Char
  | text cs => cs
  | hole key => m.opening ++ key ++ m.closing

theorem flatMap_source_scan (m : Marks) (cs : List Char) :
    (scan m cs).flatMap (source m) = cs := by
  fun_induction scan m cs with
  | case1 | case2 | case3 => simp [source]
  | case4 cs hm before behind h key rest hr hk ih =>
    simp [source, ih, eq_append_of_cutAt? h]
  | case5 cs hm before behind h key rest hr hk ih =>
    simp [source, ih, eq_append_of_cutAt? h, eq_append_of_cutAt? hr]

def key? : Piece → Option String
  | text _ => none
  | hole key => some (String.ofList key)

/-- The characters of a piece once bound keys are replaced. -/
def filled (m : Marks) (data : Bindings) (p : Piece) : List Char :=
  match p with
  | text cs => cs
  | hole key =>
    match data.get? (String.ofList key) with
    | some value => value.toList
    | none => p.source m

end Piece

/-- A key and the byte range of its placeholder, both marks included. -/
structure Placeholder where
  key : String
  start : Nat
  stop : Nat
  deriving DecidableEq, Repr

namespace Placeholder

/-- The placeholders among pieces that begin at a byte offset. -/
def locate (m : Marks) (offset : Nat) : List Piece → List Placeholder
  | [] => []
  | p :: ps =>
    let stop := offset + utf8Length (p.source m)
    match p.key? with
    | none => locate m stop ps
    | some key => ⟨key, offset, stop⟩ :: locate m stop ps

/-- All placeholders of a markup, from left to right. -/
def all (m : Marks) (markup : String) : List Placeholder :=
  locate m 0 (Piece.scan m markup.toList)

end Placeholder

/-- Markup after a pass, and the keys that were not bound, each once. -/
structure Filled where
  markup : String
  missing : List String
  deriving DecidableEq, Repr

def fillReport (m : Marks) (data : Bindings) (markup : String) : Filled :=
  let pieces := Piece.scan m markup.toList
  { markup := String.ofList (pieces.flatMap (·.filled m data))
    missing := ((pieces.filterMap Piece.key?).filter fun k => !data.contains k).eraseDups }

/-- A pass that reports each unbound key by an event. -/
def fillWith (event : String → Event) (m : Marks) (data : Bindings) (markup : String) :
    Logged String :=
  let filled := fillReport m data markup
  ⟨filled.markup, filled.missing.map event⟩

/-- Binds data fields. -/
def fill (m : Marks) (data : Bindings) (markup : String) : Logged String :=
  fillWith .unboundPlaceholder m data markup

/-- Replaces terms by their definitions. -/
def fillTerms (definitions : Bindings) (markup : String) : Logged String :=
  fillWith .unknownTerm .term definitions markup

end Questionnaire

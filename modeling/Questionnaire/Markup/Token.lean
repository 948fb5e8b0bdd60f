import Questionnaire.Markup.Entity
import Questionnaire.Markup.Node
import Questionnaire.Text.Blank

/-! # Markup tokens

Markup is cut into tokens from left to right. Every text has tokens: a bracket
that opens no tag, comment or declaration stands for itself.
-/

namespace Questionnaire.Markup

open Text

inductive Token where
  | start (tag : Tag) (selfClosing : Bool)
  | close (name : String)
  | text (source : String)
  | comment (body : String)
  | declaration (source : String)
  deriving DecidableEq, Repr

def lower (cs : List Char) : String := String.ofList (cs.map Char.toLower)

namespace Tag

def endsName (c : Char) : Bool := isBlank c || c = '/' || c = '>'

def endsAttributeName (c : Char) : Bool := isBlank c || c = '=' || c = '>' || c = '/'

def endsBareValue (c : Char) : Bool := isBlank c || c = '>'

/-- A value up to a closing quote. -/
def quotedValue? (quote : Char) (cs : List Char) : Option (String × List Char) :=
  (cutAt? [quote] cs).map fun (v, rest) => (String.ofList (decode v), rest)

/-- The value of an attribute behind its equals sign. -/
def value? (cs : List Char) : Option (String × List Char) :=
  match trimStart cs with
  | '"' :: r => quotedValue? '"' r
  | '\'' :: r => quotedValue? '\'' r
  | r =>
    some (String.ofList (decode (r.takeWhile (!endsBareValue ·))), r.dropWhile (!endsBareValue ·))

/-- An attribute by its first character and what follows it. -/
def attributeAt? (c : Char) (cs : List Char) : Option ((String × Option String) × List Char) :=
  if c = '=' then (value? cs).map fun (v, rest) => (("", some v), rest)
  else
    let name := lower (c :: cs.takeWhile (!endsAttributeName ·))
    let behind := cs.dropWhile (!endsAttributeName ·)
    match trimStart behind with
    | '=' :: r => (value? r).map fun (v, rest) => ((name, some v), rest)
    | _ => some ((name, none), behind)

theorem length_trimStart_le (cs : List Char) : (trimStart cs).length ≤ cs.length :=
  (List.dropWhile_sublist _).length_le

theorem length_le_of_quotedValue? {q : Char} {cs rest : List Char} {v : String}
    (h : quotedValue? q cs = some (v, rest)) : rest.length ≤ cs.length := by
  simp only [quotedValue?, Option.map_eq_some_iff, Prod.mk.injEq] at h
  obtain ⟨⟨_, _⟩, h, _, rfl⟩ := h
  exact Nat.le_of_lt (length_lt_of_cutAt? (by simp) h)

theorem length_le_of_value? {cs rest : List Char} {v : String}
    (h : value? cs = some (v, rest)) : rest.length ≤ cs.length := by
  have hle := length_trimStart_le cs
  rw [value?] at h
  split at h
  · next r hr =>
    have := length_le_of_quotedValue? h
    simp only [hr, List.length_cons] at hle
    omega
  · next r hr =>
    have := length_le_of_quotedValue? h
    simp only [hr, List.length_cons] at hle
    omega
  · simp only [Option.some.injEq, Prod.mk.injEq] at h
    obtain ⟨_, rfl⟩ := h
    exact Nat.le_trans (List.dropWhile_sublist _).length_le hle

theorem length_le_of_attributeAt? {c : Char} {cs rest : List Char}
    {a : String × Option String} (h : attributeAt? c cs = some (a, rest)) :
    rest.length ≤ cs.length := by
  rw [attributeAt?] at h
  split at h
  · simp only [Option.map_eq_some_iff, Prod.mk.injEq] at h
    obtain ⟨⟨_, _⟩, h, _, rfl⟩ := h
    exact length_le_of_value? h
  · have hd := (List.dropWhile_sublist (!endsAttributeName ·) (l := cs)).length_le
    have hle := length_trimStart_le (cs.dropWhile (!endsAttributeName ·))
    simp only at h
    split at h
    · next r hr =>
      simp only [Option.map_eq_some_iff, Prod.mk.injEq] at h
      obtain ⟨⟨_, _⟩, h, _, rfl⟩ := h
      have := length_le_of_value? h
      simp only [hr, List.length_cons] at hle
      simp only
      omega
    · simp only [Option.some.injEq, Prod.mk.injEq] at h
      obtain ⟨_, rfl⟩ := h
      exact hd

/-- The attributes of a start tag, whether it closes itself, and what is behind it. A tag
that is not closed is none. -/
def attributes? (cs : List Char) :
    Option (List (String × Option String) × Bool × List Char) :=
  match _h : trimStart cs with
  | [] => none
  | '>' :: r => some ([], false, r)
  | '/' :: '>' :: r => some ([], true, r)
  | '/' :: r => attributes? r
  | c :: r =>
    match _ha : attributeAt? c r with
    | none => none
    | some (a, rest) =>
      (attributes? rest).map fun (as, selfClosing, rest) => (a :: as, selfClosing, rest)
termination_by cs.length
decreasing_by
  · have := length_trimStart_le cs
    simp only [_h, List.length_cons] at this
    omega
  · have := length_trimStart_le cs
    have := length_le_of_attributeAt? _ha
    simp only [_h, List.length_cons] at *
    omega

theorem length_lt_of_attributes? {cs rest : List Char} {as : List (String × Option String)}
    {selfClosing : Bool} (h : attributes? cs = some (as, selfClosing, rest)) :
    rest.length < cs.length := by
  have hle := length_trimStart_le cs
  rw [attributes?] at h
  split at h
  · simp at h
  · next r hr =>
    simp only [Option.some.injEq, Prod.mk.injEq] at h
    obtain ⟨_, _, rfl⟩ := h
    simp only [hr, List.length_cons] at hle
    omega
  · next r hr =>
    simp only [Option.some.injEq, Prod.mk.injEq] at h
    obtain ⟨_, _, rfl⟩ := h
    simp only [hr, List.length_cons] at hle
    omega
  · next r _ hr =>
    have := length_lt_of_attributes? h
    simp only [hr, List.length_cons] at hle
    omega
  · next c r _ _ _ hr =>
    simp only [hr, List.length_cons] at hle
    split at h
    · simp at h
    · next a rest' ha =>
      have := length_le_of_attributeAt? ha
      simp only [Option.map_eq_some_iff, Prod.mk.injEq] at h
      obtain ⟨⟨_, _, _⟩, h, _, _, rfl⟩ := h
      have := length_lt_of_attributes? h
      simp only
      omega
termination_by cs.length
decreasing_by
  · simp_all only [List.length_cons]
    omega
  · simp_all only [List.length_cons]
    omega

/-- A start tag behind its bracket. -/
def ofChars? (cs : List Char) : Option (Tag × Bool × List Char) :=
  (attributes? (cs.dropWhile (!endsName ·))).map fun (as, selfClosing, rest) =>
    (⟨lower (cs.takeWhile (!endsName ·)), as⟩, selfClosing, rest)

theorem length_lt_of_ofChars? {cs rest : List Char} {t : Tag} {selfClosing : Bool}
    (h : ofChars? cs = some (t, selfClosing, rest)) : rest.length < cs.length := by
  simp only [ofChars?, Option.map_eq_some_iff, Prod.mk.injEq] at h
  obtain ⟨⟨_, _, _⟩, h, _, _, rfl⟩ := h
  exact Nat.lt_of_lt_of_le (length_lt_of_attributes? h) (List.dropWhile_sublist _).length_le

end Tag

namespace Token

def isLetter (c : Char) : Bool := ('a' ≤ c && c ≤ 'z') || ('A' ≤ c && c ≤ 'Z')

/-- Text up to the next bracket; its first character may be one. -/
def textAt (c : Char) (cs : List Char) : Token × List Char :=
  (.text (String.ofList (c :: cs.takeWhile (· ≠ '<'))), cs.dropWhile (· ≠ '<'))

def commentAt (cs : List Char) : Token × List Char :=
  match cutAt? "-->".toList cs with
  | some (body, rest) => (.comment (String.ofList body), rest)
  | none => (.comment (String.ofList cs), [])

/-- A declaration behind its bracket. -/
def declarationAt (cs : List Char) : Token × List Char :=
  match cutAt? ['>'] cs with
  | some (body, rest) => (.declaration (String.ofList ('<' :: body ++ ['>'])), rest)
  | none => (.declaration (String.ofList ('<' :: cs)), [])

/-- A closing tag behind its slash. -/
def closeAt (cs : List Char) : Token × List Char :=
  match cutAt? ['>'] cs with
  | some (name, rest) => (.close (lower (trim name)), rest)
  | none => (.close (lower (trim cs)), [])

/-- The token at the front of a text. -/
def next (c : Char) (cs : List Char) : Token × List Char :=
  if c = '<' then
    match cs with
    | '!' :: '-' :: '-' :: r => commentAt r
    | '!' :: _ | '?' :: _ => declarationAt cs
    | '/' :: r => closeAt r
    | d :: _ =>
      if isLetter d then
        match Tag.ofChars? cs with
        | some (tag, selfClosing, rest) => (.start tag selfClosing, rest)
        | none => textAt c cs
      else textAt c cs
    | [] => textAt c cs
  else textAt c cs

theorem length_le_of_textAt {c : Char} {cs rest : List Char} {t : Token}
    (h : textAt c cs = (t, rest)) : rest.length ≤ cs.length := by
  simp only [textAt, Prod.mk.injEq] at h
  exact h.2 ▸ (List.dropWhile_sublist _).length_le

theorem length_le_of_commentAt {cs rest : List Char} {t : Token}
    (h : commentAt cs = (t, rest)) : rest.length ≤ cs.length := by
  rw [commentAt] at h
  split at h
  · next hc =>
    obtain ⟨_, rfl⟩ := Prod.mk.inj h
    exact Nat.le_of_lt (length_lt_of_cutAt? (by decide) hc)
  · obtain ⟨_, rfl⟩ := Prod.mk.inj h
    simp

theorem length_le_of_declarationAt {cs rest : List Char} {t : Token}
    (h : declarationAt cs = (t, rest)) : rest.length ≤ cs.length := by
  rw [declarationAt] at h
  split at h
  · next hc =>
    obtain ⟨_, rfl⟩ := Prod.mk.inj h
    exact Nat.le_of_lt (length_lt_of_cutAt? (by simp) hc)
  · obtain ⟨_, rfl⟩ := Prod.mk.inj h
    simp

theorem length_le_of_closeAt {cs rest : List Char} {t : Token}
    (h : closeAt cs = (t, rest)) : rest.length ≤ cs.length := by
  rw [closeAt] at h
  split at h
  · next hc =>
    obtain ⟨_, rfl⟩ := Prod.mk.inj h
    exact Nat.le_of_lt (length_lt_of_cutAt? (by simp) hc)
  · obtain ⟨_, rfl⟩ := Prod.mk.inj h
    simp

theorem length_le_of_next {c : Char} {cs rest : List Char} {t : Token}
    (h : next c cs = (t, rest)) : rest.length ≤ cs.length := by
  rw [next.eq_def] at h
  split at h
  · split at h
    · have := length_le_of_commentAt h
      simp only [List.length_cons]
      omega
    · exact length_le_of_declarationAt h
    · exact length_le_of_declarationAt h
    · have := length_le_of_closeAt h
      simp only [List.length_cons]
      omega
    · split at h
      · split at h
        · next ht =>
          simp only [Prod.mk.injEq] at h
          obtain ⟨_, rfl⟩ := h
          exact Nat.le_of_lt (Tag.length_lt_of_ofChars? ht)
        · exact length_le_of_textAt h
      · exact length_le_of_textAt h
    · exact length_le_of_textAt h
  · exact length_le_of_textAt h

/-- The text begins like a closing tag of the name, in either case. -/
def beginsClosing (name : String) (cs : List Char) : Bool :=
  let mark := '<' :: '/' :: name.toList
  (cs.take mark.length).map Char.toLower = mark

/-- The body of a raw element, up to what begins like its closing tag, and what follows. -/
def rawBody (name : String) (cs : List Char) : List Char × List Char :=
  (cutBefore? (beginsClosing name) cs).getD (cs, [])

theorem append_of_rawBody {name : String} {cs body rest : List Char}
    (h : rawBody name cs = (body, rest)) : cs = body ++ rest := by
  cases hc : cutBefore? (beginsClosing name) cs with
  | none => simp_all [rawBody]
  | some p =>
    rw [rawBody, hc, Option.getD_some] at h
    exact (eq_append_of_cutBefore? (h ▸ hc)).1

/-- The raw body behind a token, if it opens a raw element. -/
def body (t : Token) (cs : List Char) : List Char × List Char :=
  match t with
  | .start tag false => if tag.isRaw then rawBody tag.name cs else ([], cs)
  | _ => ([], cs)

theorem append_of_body {t : Token} {cs b rest : List Char} (h : t.body cs = (b, rest)) :
    cs = b ++ rest := by
  rw [body.eq_def] at h
  split at h
  · split at h
    · exact append_of_rawBody h
    · simp_all
  · simp_all

/-- The tokens of a text. A raw body is a text token unless it is empty. -/
def all (cs : List Char) : List Token :=
  match cs with
  | [] => []
  | c :: cs =>
    match _h : next c cs with
    | (t, behind) =>
      match _hb : t.body behind with
      | (b, rest) => t :: (if b.isEmpty then [] else [.text (String.ofList b)]) ++ all rest
termination_by cs.length
decreasing_by
  have := length_le_of_next _h
  have := congrArg List.length (append_of_body _hb)
  simp only [List.length_append, List.length_cons] at *
  omega

end Token

end Questionnaire.Markup

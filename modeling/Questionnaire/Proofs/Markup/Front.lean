import Questionnaire.Proofs.Markup.RoundTrip

/-! # The first node

The first node of a document is made by the first of its tokens that is not a closing tag: text
comes first as text, and an element keeps its tag whatever is put into it or behind it.
-/

namespace Questionnaire.Markup

namespace Node

def tag? : Node → Option Tag
  | element t _ => some t
  | _ => none

end Node

namespace Token

/-- What a token makes the first node of a document, if it makes one: the tag of an element, or
none. -/
def front? : Token → Option (Option Tag)
  | start t _ => some (some t)
  | close _ => none
  | _ => some none

end Token

namespace Builder

/-- The tag of the first node, if one has been begun. -/
def front? (b : Builder) : Option (Option Tag) :=
  (b.roots.head?.map Node.tag?).or (b.opened.getLast?.map fun e => some e.tag)

variable (roots inner ns : List Node) (e : Element) (es : List Element)

theorem front?_opened :
    front? ⟨roots, e :: es⟩ = (front? ⟨roots, es⟩).or (some (some e.tag)) := by
  cases roots with
  | nil => cases es <;> simp [front?, List.getLast?_cons]
  | cons n ns => simp [front?]

theorem front?_append (b : Builder) :
    (b.append ns).front? = b.front?.or (ns.head?.map Node.tag?) := by
  obtain ⟨roots, opened⟩ := b
  cases opened with
  | nil => cases roots <;> simp [append, front?]
  | cons e es =>
    change front? ⟨roots, { e with children := e.children ++ ns } :: es⟩ = _
    simp [front?_opened]

theorem front?_closeThrough (name : String) : (closeThrough name roots inner es).front? =
    (front? ⟨roots, es⟩).or (inner.head?.map Node.tag?) := by
  induction es generalizing inner with
  | nil => cases roots <;> simp [closeThrough, front?]
  | cons e es ih =>
    rw [closeThrough, front?_opened]
    split
    · simp [front?_append, Node.tag?]
    · simp [ih, Node.tag?]

theorem head?_closeAll : (closeAll roots inner es).head?.map Node.tag? =
    (front? ⟨roots, es⟩).or (inner.head?.map Node.tag?) := by
  induction es generalizing inner with
  | nil => cases roots <;> simp [closeAll, front?]
  | cons e es ih =>
    rw [closeAll, ih, front?_opened]
    simp [Node.tag?]

theorem front?_step (b : Builder) (t : Token) : (b.step t).front? = b.front?.or t.front? := by
  cases t with
  | start tag selfClosing =>
    by_cases h : selfClosing || tag.isVoid
    · simp [step, h, front?_append, Token.front?, Node.tag?]
    · simp [step, h, front?_opened, Token.front?]
  | close name =>
    by_cases h : b.isOpen name
    · simp [step, h, front?_closeThrough, Token.front?]
    · simp [step, h, Token.front?]
  | _ => simp [step, front?_append, Token.front?, Node.tag?]

end Builder

theorem head?_ofTokens (ts : List Token) :
    (ofTokens ts).head?.map Node.tag? = ts.findSome? Token.front? := by
  have hfold (b : Builder) :
      (ts.foldl Builder.step b).front? = b.front?.or (ts.findSome? Token.front?) := by
    induction ts generalizing b with
    | nil => simp
    | cons t ts ih =>
      rw [List.foldl_cons, ih, Builder.front?_step, Option.or_assoc, List.findSome?_cons]
      cases t.front? <;> rfl
  rw [ofTokens, Builder.finish, Builder.head?_closeAll, hfold]
  exact Option.or_none

/-- An element at the head of a document has the tag that is read there. -/
theorem exists_ofChars?_of_head? {d : Char} {cs : List Char} {tag : Tag}
    (hl : Token.isLetter d = true)
    (h : (parseChars ('<' :: d :: cs)).head?.map Node.tag? = some (some tag)) :
    ∃ selfClosing rest, Tag.ofChars? (d :: cs) = some (tag, selfClosing, rest) := by
  rw [parseChars, head?_ofTokens] at h
  cases ht : Tag.ofChars? (d :: cs) with
  | none =>
    rw [Token.all_cons (Token.next_of_unclosed hl ht) rfl, List.cons_append,
      List.findSome?_cons_of_isSome rfl] at h
    cases h
  | some read =>
    obtain ⟨t, selfClosing, rest⟩ := read
    rw [Token.all_cons (Token.next_of_letter hl ht) rfl, List.cons_append,
      List.findSome?_cons_of_isSome rfl] at h
    obtain rfl : t = tag := Option.some.inj (Option.some.inj h)
    exact ⟨selfClosing, rest, rfl⟩

end Questionnaire.Markup

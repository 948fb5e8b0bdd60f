import Questionnaire.Markup.Printer
import Questionnaire.Markup.Token

/-! # Building trees

Tokens are put into a tree whose open elements are kept innermost first. A
closing tag ends the innermost open element of its name and all that is open
inside it; one that names no open element is left out.
-/

namespace Questionnaire.Markup

structure Builder where
  roots : List Node := []
  opened : List Element := []

namespace Builder

/-- Puts nodes at the place that is being filled. -/
def append (ns : List Node) (b : Builder) : Builder :=
  match b.opened with
  | [] => { b with roots := b.roots ++ ns }
  | e :: es => { b with opened := { e with children := e.children ++ ns } :: es }

def isOpen (name : String) (b : Builder) : Bool := b.opened.any (·.tag.name = name)

/-- Ends open elements up to the first of a name; `inner` ends in the innermost of them. -/
def closeThrough (name : String) (roots inner : List Node) : List Element → Builder
  | [] => ⟨roots ++ inner, []⟩
  | e :: es =>
    let n := .element e.tag (e.children ++ inner)
    if e.tag.name = name then append [n] ⟨roots, es⟩ else closeThrough name roots [n] es

/-- Ends all open elements. -/
def closeAll (roots inner : List Node) : List Element → List Node
  | [] => roots ++ inner
  | e :: es => closeAll roots [.element e.tag (e.children ++ inner)] es

def step (b : Builder) : Token → Builder
  | .start tag selfClosing =>
    if selfClosing || tag.isVoid then b.append [.element tag []]
    else { b with opened := ⟨tag, []⟩ :: b.opened }
  | .close name => if b.isOpen name then closeThrough name b.roots [] b.opened else b
  | .text s => b.append [.text s]
  | .comment s => b.append [.comment s]
  | .declaration s => b.append [.declaration s]

def finish (b : Builder) : List Node := closeAll b.roots [] b.opened

end Builder

/-- The tree of a list of tokens. -/
def ofTokens (ts : List Token) : List Node := (ts.foldl Builder.step {}).finish

def parseChars (cs : List Char) : List Node := ofTokens (Token.all cs)

/-- The document of a markup; every markup has one. -/
def parse (markup : String) : List Node := parseChars markup.toList

/-- A document whose markup reads back as the same document. -/
def isStable (ns : List Node) : Bool := parse (html ns) = ns

end Questionnaire.Markup

import Questionnaire.Markup.Entity
import Questionnaire.Markup.Node

/-! # Markup text

The markup of a tree. Every element that is not void has a closing tag, and
attribute values stand escaped between double quotes.
-/

namespace Questionnaire.Markup

namespace Tag

def attributeChars : String × Option String → List Char
  | (name, none) => ' ' :: name.toList
  | (name, some value) => ' ' :: name.toList ++ '=' :: '"' :: escape value.toList ++ ['"']

/-- The start tag. -/
def chars (t : Tag) : List Char :=
  '<' :: t.name.toList ++ t.attributes.flatMap attributeChars ++ ['>']

def closingChars (t : Tag) : List Char := '<' :: '/' :: t.name.toList ++ ['>']

end Tag

namespace Node

mutual

def chars : Node → List Char
  | .element t cs => if t.isVoid then t.chars else t.chars ++ charsList cs ++ t.closingChars
  | .text s => s.toList
  | .comment s => "<!--".toList ++ s.toList ++ "-->".toList
  | .declaration s => s.toList

def charsList : List Node → List Char
  | [] => []
  | n :: ns => n.chars ++ charsList ns

end

mutual

/-- The text of a node without its markup. -/
def textChars : Node → List Char
  | .element _ cs => textCharsList cs
  | .text s => s.toList
  | .comment _ | .declaration _ => []

def textCharsList : List Node → List Char
  | [] => []
  | n :: ns => n.textChars ++ textCharsList ns

end

end Node

def html (ns : List Node) : String := String.ofList (Node.charsList ns)

def textContent (ns : List Node) : String := String.ofList (Node.textCharsList ns)

end Questionnaire.Markup

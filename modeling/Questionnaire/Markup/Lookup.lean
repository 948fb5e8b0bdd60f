import Questionnaire.Markup.Node
import Questionnaire.Text.Blank

/-! # Looking up elements

Elements are visited in document order, each before its children. An id names
the first element that carries it.
-/

namespace Questionnaire.Markup

namespace Tag

/-- The words of the class attribute. -/
def hasClass (name : String) (t : Tag) : Bool :=
  match t.attribute? "class" with
  | some classes => (Text.words classes.toList).contains name.toList
  | none => false

end Tag

namespace Node

mutual

/-- The elements of a node, each before its children. -/
def elements : Node → List Element
  | .element t cs => ⟨t, cs⟩ :: elementsList cs
  | _ => []

def elementsList : List Node → List Element
  | [] => []
  | n :: ns => n.elements ++ elementsList ns

end

mutual

def withId? (id : String) : Node → Option Element
  | .element t cs => if t.id? = some id then some ⟨t, cs⟩ else withIdList? id cs
  | _ => none

def withIdList? (id : String) : List Node → Option Element
  | [] => none
  | n :: ns => n.withId? id <|> withIdList? id ns

end

mutual

def updateId? (id : String) (f : Element → Element) : Node → Option Node
  | .element t cs =>
    if t.id? = some id then some (f ⟨t, cs⟩).toNode
    else (updateIdList? id f cs).map (.element t)
  | _ => none

def updateIdList? (id : String) (f : Element → Element) : List Node → Option (List Node)
  | [] => none
  | n :: ns =>
    match n.updateId? id f with
    | some n => some (n :: ns)
    | none => (updateIdList? id f ns).map (n :: ·)

end

mutual

def mapTags (f : Tag → Tag) : Node → Node
  | .element t cs => .element (f t) (mapTagsList f cs)
  | n => n

def mapTagsList (f : Tag → Tag) : List Node → List Node
  | [] => []
  | n :: ns => n.mapTags f :: mapTagsList f ns

end

end Node

/-- The first element with an id. -/
def elementById? (id : String) (ns : List Node) : Option Element := Node.withIdList? id ns

/-- The document with the first element of an id changed, if there is one. -/
def updateById? (id : String) (f : Element → Element) (ns : List Node) : Option (List Node) :=
  Node.updateIdList? id f ns

/-- The elements of a class in document order. -/
def elementsByClass (name : String) (ns : List Node) : List Element :=
  (Node.elementsList ns).filter (·.tag.hasClass name)

/-- The document with the tag of every element changed. -/
def mapTags (f : Tag → Tag) (ns : List Node) : List Node := Node.mapTagsList f ns

end Questionnaire.Markup

/-! # Markup trees

A document is a list of nodes. Text is kept as it stands in the markup, while
attribute values are kept as a reader of the document sees them.
-/

namespace Questionnaire.Markup

/-- The name and the attributes of an element. An attribute may have no value. -/
structure Tag where
  name : String
  attributes : List (String × Option String) := []
  deriving DecidableEq, Repr

inductive Node where
  | element (tag : Tag) (children : List Node)
  | text (source : String)
  | comment (body : String)
  /-- A declaration with its brackets. -/
  | declaration (source : String)
  deriving Inhabited

structure Element where
  tag : Tag
  children : List Node

namespace Node

mutual

def decideEq : (a b : Node) → Decidable (a = b)
  | .element t cs, .element u ds =>
    match decEq t u, decideEqList cs ds with
    | isTrue ht, isTrue hc => isTrue (by rw [ht, hc])
    | isFalse h, _ => isFalse fun e => h (Node.element.inj e).1
    | _, isFalse h => isFalse fun e => h (Node.element.inj e).2
  | .text s, .text t => decidable_of_iff (s = t) (by simp)
  | .comment s, .comment t => decidable_of_iff (s = t) (by simp)
  | .declaration s, .declaration t => decidable_of_iff (s = t) (by simp)
  | .element _ _, .text _ | .element _ _, .comment _ | .element _ _, .declaration _
  | .text _, .element _ _ | .text _, .comment _ | .text _, .declaration _
  | .comment _, .element _ _ | .comment _, .text _ | .comment _, .declaration _
  | .declaration _, .element _ _ | .declaration _, .text _ | .declaration _, .comment _ =>
    isFalse nofun

def decideEqList : (as bs : List Node) → Decidable (as = bs)
  | [], [] => isTrue rfl
  | a :: as, b :: bs =>
    match decideEq a b, decideEqList as bs with
    | isTrue h, isTrue hs => isTrue (by rw [h, hs])
    | isFalse h, _ => isFalse fun e => h (List.cons.inj e).1
    | _, isFalse h => isFalse fun e => h (List.cons.inj e).2
  | [], _ :: _ | _ :: _, [] => isFalse nofun

end

instance : DecidableEq Node := decideEq

end Node

namespace Element

/-- An element by its name in lower case, without attributes or children. -/
def named (name : String) : Element :=
  ⟨⟨String.ofList (name.toList.map Char.toLower), []⟩, []⟩

def toNode (e : Element) : Node := .element e.tag e.children

end Element

namespace Tag

/-- The value of the first attribute of a name; one without value counts as empty. -/
def attribute? (t : Tag) (name : String) : Option String :=
  (t.attributes.lookup name).map (·.getD "")

def putAttribute (name value : String) :
    List (String × Option String) → List (String × Option String)
  | [] => [(name, some value)]
  | a :: as => if a.1 = name then (name, some value) :: as else a :: putAttribute name value as

/-- Sets the first attribute of a name, or adds one at the end. -/
def setAttribute (name value : String) (t : Tag) : Tag :=
  { t with attributes := putAttribute name value t.attributes }

def id? (t : Tag) : Option String := t.attribute? "id"

def voidNames : List String :=
  ["area", "base", "br", "col", "embed", "hr", "img", "input", "link", "meta", "source",
    "track", "wbr"]

/-- Void elements have neither children nor a closing tag. -/
def isVoid (t : Tag) : Bool := voidNames.contains t.name

def rawNames : List String := ["script", "style"]

/-- The body of a raw element is text up to its closing tag. -/
def isRaw (t : Tag) : Bool := rawNames.contains t.name

end Tag

end Questionnaire.Markup

/-! # Answers

An answer is a list of values; the empty list means that nothing has been
answered. Toggling keeps the values in the order of the options, so an answer
does not depend on the order of the clicks that made it.
-/

namespace Questionnaire

structure Answer where
  values : List String
  deriving DecidableEq, Repr

namespace Answer

def empty : Answer := ⟨[]⟩

instance : Inhabited Answer := ⟨empty⟩

def single (value : String) : Answer := ⟨[value]⟩

def isEmpty (a : Answer) : Bool := a.values.isEmpty

def size (a : Answer) : Nat := a.values.length

def contains (a : Answer) (value : String) : Bool := a.values.contains value

/-- The place of a value among the options; values that are no option come last. -/
def rank (options : List String) (value : String) : Nat := options.idxOf value

/-- Puts a value in front of the first one that the options place behind it. -/
def insert (options : List String) (value : String) (a : Answer) : Answer :=
  let before (v : String) : Bool := rank options v ≤ rank options value
  ⟨a.values.takeWhile before ++ value :: a.values.dropWhile before⟩

/-- Removes a value that is there and inserts one that is not. -/
def toggle (options : List String) (value : String) (a : Answer) : Answer :=
  if a.contains value then ⟨a.values.erase value⟩ else a.insert options value

def join (separator : String) (a : Answer) : String :=
  separator.intercalate a.values

/-- The key an answer is looked up by: a value as it is, several joined. An empty answer
has none. -/
def key? (separator : String) (a : Answer) : Option String :=
  match a.values with
  | [] => none
  | [value] => some value
  | _ => some (a.join separator)

end Answer

end Questionnaire

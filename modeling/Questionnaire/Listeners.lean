/-! # Listeners

Listeners are kept in the order in which they were added. Notifying them calls
each once, in that order.
-/

namespace Questionnaire

structure Listeners (κ : Type) where
  toList : List κ := []
  deriving DecidableEq, Repr

namespace Listeners

variable {κ α : Type}

def add (k : κ) (l : Listeners κ) : Listeners κ := ⟨l.toList ++ [k]⟩

/-- The calls made with a value. -/
def notify (l : Listeners κ) (value : α) : List (κ × α) := l.toList.map (·, value)

def size (l : Listeners κ) : Nat := l.toList.length

def isEmpty (l : Listeners κ) : Bool := l.toList.isEmpty

def description (l : Listeners κ) : String :=
  "Listeners \x7b len: " ++ toString l.size ++ " \x7d"

end Listeners

end Questionnaire

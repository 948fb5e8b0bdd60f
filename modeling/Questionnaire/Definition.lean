import Questionnaire.Placeholder
import Questionnaire.Terminology

/-! # Term definitions

Each term of a terminology is rendered once from the definition fragment. The
term marks of a markup are then replaced by these definitions.
-/

namespace Questionnaire.Terminology

def fragmentData (defaultLink term : String) (e : TermEntry) : Bindings :=
  Table.ofList [("text", term), ("definition", e.definition), ("link", e.linkOr defaultLink)]

def define (fragment defaultLink term : String) (e : TermEntry) : Logged String :=
  fill .field (fragmentData defaultLink term e) fragment

/-- The definition of every term, rendered in the order of the terms. -/
def definitions (t : Terminology) (fragment defaultLink : String) : Logged Bindings where
  value := t.mapWithKey fun term e => (define fragment defaultLink term e).value
  events := t.entries.flatMap fun e => (define fragment defaultLink e.1 e.2).events

/-- Replaces the terms of a markup by their definitions. -/
def expand (t : Terminology) (fragment defaultLink markup : String) : Logged String := do
  let definitions ← t.definitions fragment defaultLink
  fillTerms definitions markup

end Questionnaire.Terminology

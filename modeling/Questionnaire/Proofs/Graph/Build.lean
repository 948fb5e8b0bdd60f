import Questionnaire.Graph

/-! # The questions of a graph

A graph has a question for every entry of its outline that can be read as one, and
none for the others. The question has the id of its entry.
-/

namespace Questionnaire

def Outline.spec? (o : Outline) (id : String) : Option QuestionSpec :=
  (o.questions.get? id).bind fun entry => (QuestionSpec.ofJson entry).toOption

namespace Graph

variable {context : Context}

/-- The questions with the one of an entry, if it is one. -/
def putEntry (context : Context) (t : Table Question) (entry : String × Json) : Table Question :=
  match QuestionSpec.ofJson entry.2 with
  | .ok spec => t.put entry.1 (Question.create entry.1 spec context).value
  | .error _ => t

theorem questions_buildQuestions (context : Context) (entries : List (String × Json)) :
    (buildQuestions context entries).value.1 = entries.foldl (putEntry context) .empty := by
  rw [buildQuestions, Logged.value_foldlM]
  refine (List.foldl_hom Prod.fst fun acc entry => ?_).symm
  simp only [putEntry, Question.ofEntry]
  cases QuestionSpec.ofJson entry.2 <;> rfl

theorem get?_putEntry (t : Table Question) (entry : String × Json) (id : String) :
    (putEntry context t entry).get? id =
      if id = entry.1 then
        ((QuestionSpec.ofJson entry.2).toOption.map fun spec =>
          (Question.create id spec context).value).or (t.get? id)
      else t.get? id := by
  rw [putEntry]
  cases hs : QuestionSpec.ofJson entry.2 with
  | ok spec =>
    rw [Table.get?_put]
    split <;> simp_all [Except.toOption]
  | error e => simp [Except.toOption]

theorem get?_foldl_putEntry {entries : List (String × Json)}
    (h : (entries.map Prod.fst).Pairwise (· < ·)) (t : Table Question) (id : String) :
    (entries.foldl (putEntry context) t).get? id =
      (((entries.lookup id).bind fun entry => (QuestionSpec.ofJson entry).toOption).map fun spec =>
        (Question.create id spec context).value).or (t.get? id) := by
  induction entries generalizing t with
  | nil => simp
  | cons entry entries ih =>
    obtain ⟨hlt, h⟩ := List.pairwise_cons.mp h
    rw [List.foldl_cons, ih h, get?_putEntry, lookup_cons_eq]
    by_cases hid : id = entry.1
    · simp [hid, lookup_eq_none_of_lt hlt]
    · simp [hid]

theorem get?_build (outline : Outline) (context : Context) (id : String) :
    (build outline context).value.1.get? id =
      (outline.spec? id).map fun spec => (Question.create id spec context).value := by
  change (buildQuestions context outline.questions.entries).value.1.get? id = _
  rw [questions_buildQuestions, get?_foldl_putEntry outline.questions.sorted, Table.get?_empty,
    Option.or_none]
  rfl

end Graph

end Questionnaire

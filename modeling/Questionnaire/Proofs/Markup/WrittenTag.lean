import Questionnaire.Proofs.Markup.Front
import Questionnaire.Proofs.Markup.Progress

/-! # Written start tags

A written start tag ends for its reader where it ends, whatever markup is behind it, and the
reader gives the tag back. So an attribute that has been set on an element is read off its markup
with the value that it has been set to.
-/

namespace Questionnaire.Markup

open Text

namespace Tag

theorem mem_putAttribute {name value : String} {as : List (String × Option String)}
    {a : String × Option String} (h : a ∈ putAttribute name value as) :
    a = (name, some value) ∨ a ∈ as := by
  induction as with
  | nil => exact .inl (List.mem_singleton.mp h)
  | cons b bs ih =>
    rw [putAttribute] at h
    split at h
    · exact (List.mem_cons.mp h).imp_right (List.mem_cons_of_mem b)
    · rcases List.mem_cons.mp h with rfl | h
      · exact .inr List.mem_cons_self
      · exact (ih h).imp_right (List.mem_cons_of_mem b)

theorem WellFormed.setAttribute {t : Tag} (h : t.WellFormed) {name : String} (hne : name ≠ "")
    (hp : Plain ['=', '>', '/'] name.toList) (value : String) :
    (t.setAttribute name value).WellFormed where
  letter := h.letter
  name := h.name
  attributes a ha := by
    rcases mem_putAttribute ha with rfl | ha
    · exact ⟨hne, hp⟩
    · exact h.attributes a ha

theorem chars_prefix_element (t : Tag) (cs : List Node) :
    t.chars <+: (Node.element t cs).chars := by
  rw [Node.chars]
  split
  · exact List.prefix_rfl
  · rw [List.append_assoc]
    exact List.prefix_append _ _

end Tag

/-- A written tag is read to its end, between characters only. -/
theorem Cursor.startTag?_chars {t : Tag} (h : t.WellFormed) (r : List Char) :
    startTag? (t.chars ++ r) = some (some (t, false, utf8Length t.chars)) := by
  have hend : offset (t.chars ++ r) r = utf8Length t.chars := offset_append t.chars r
  rw [Tag.chars_append] at hend ⊢
  rw [startTag?_eq, Tag.ofChars?_printed h, Option.map_some]
  simp only [hend]

theorem head?_parseChars_chars {t : Tag} (h : t.WellFormed) (r : List Char) :
    (parseChars (t.chars ++ r)).head?.map Node.tag? = some (some t) := by
  rw [parseChars, head?_ofTokens, Tag.chars_append, Token.all_cons (Token.next_start h r) rfl,
    List.cons_append, List.findSome?_cons_of_isSome rfl]
  rfl

/-- A well formed tag is read back from what is written of it, to its last byte and in front of any
markup, and so is the tag of an element from the markup of the element. The answer that is set on
an element is read off its tag. -/
theorem start_tag_reads_back {t : Tag} (h : t.WellFormed) (r : List Char) :
    Cursor.startTag? (t.chars ++ r) = some (some (t, false, utf8Length t.chars)) ∧
      (∀ cs, Cursor.startTag? ((Node.element t cs).chars ++ r) =
        some (some (t, false, utf8Length t.chars))) ∧
      (parseChars (t.chars ++ r)).head?.map Node.tag? = some (some t) ∧
      ∀ answer, ∃ u n, Cursor.startTag? ((t.setAttribute "data-answer" answer).chars ++ r) =
          some (some (u, false, n)) ∧ u.attribute? "data-answer" = some answer ∧
        n = utf8Length (t.setAttribute "data-answer" answer).chars := by
  refine ⟨Cursor.startTag?_chars h r, fun cs => ?_, head?_parseChars_chars h r, fun answer => ?_⟩
  · obtain ⟨behind, hbehind⟩ := t.chars_prefix_element cs
    rw [← hbehind, List.append_assoc]
    exact Cursor.startTag?_chars h _
  · have hset : (t.setAttribute "data-answer" answer).WellFormed :=
      h.setAttribute (by decide) (by decide) answer
    exact ⟨_, _, Cursor.startTag?_chars hset r, Tag.attribute?_setAttribute_self .., rfl⟩

/-- What is behind the tag is an element that is not closed, with a quote and a reference that are
not closed either. -/
theorem start_tag_reads_back_unclosed :
    let t : Tag := ⟨"button", [("class", some "clickable"), ("disabled", none),
      ("data-answer", some "\"Ja\" & <nein>; &amp;é")]⟩
    let r := "<b ='/ &quot".toList
    t.WellFormed ∧ Cursor.startTag? (t.chars ++ r) = some (some (t, false, utf8Length t.chars)) ∧
      t.attribute? "data-answer" = some "\"Ja\" & <nein>; &amp;é" := by
  intro t r
  have h : t.WellFormed := by decide
  exact ⟨h, (start_tag_reads_back h r).1, rfl⟩

end Questionnaire.Markup

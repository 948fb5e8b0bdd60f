import Questionnaire.Proofs.Markup.Values
import Questionnaire.Proofs.Widget.Confirmation

/-! # Entered texts

A text widget shows the text that was entered last, in the values of its template where the
placeholder of the text stands. Whatever characters it has, the rest of the template is drawn as
it was written.
-/

namespace Questionnaire.Widget

open Markup (Node Tag Holed html putText)
open Use (Entered)

variable {κ : Type} {templates : Templates} {ns : List Node}

theorem Used.answer_use {history : List (Use κ)} {w : Widget κ} {u : Use κ}
    (h : Used .text templates history w) (hu : ¬ u.Enters) : (w.use u).answer = w.answer := by
  cases u with
  | listen k => rfl
  | interact i =>
    rw [use, h.value_interact, widget_reacted]
    cases i with
    | input text => exact absurd ⟨text, .inl rfl⟩ hu
    | submit text => exact absurd ⟨text, .inr rfl⟩ hu
    | _ => rfl

/-- The answer of a text widget is the text that was entered last. -/
theorem answer_run_text {i : Interaction} {text : String} (hi : i = .input text ∨ i = .submit text)
    (history : List (Use κ)) {later : List (Use κ)} (hl : ¬ Entered later) :
    ((ofSpec .text templates : Logged (Widget κ)).value.run
      (history ++ .interact i :: later)).answer = .single text := by
  induction later using List.reverseRecOn with
  | nil =>
    have h := used_run (κ := κ) .text templates history
    rw [run_concat, use, h.value_interact, widget_reacted]
    rcases hi with rfl | rfl <;> rfl
  | append_singleton us u ih =>
    obtain ⟨hus, hu⟩ := not_or.mp (Use.entered_concat.not.mp hl)
    rw [← List.cons_append, ← List.append_assoc, run_concat]
    exact ((used_run .text templates _).answer_use hu).trans (ih hus)

theorem drawText_eq (hw : Node.WellFormedList ns) (hh : Holed ns) {template : Template}
    (ht : template.source = html ns) (text : String) :
    drawText template text = pure (Markup.mapTags markSubmit (putText text ns)) := by
  have hms : Node.WellFormedList (putText text ns) := hw.mapValues _
  rw [drawText]
  change Markup.mapTags markSubmit <$> template.instantiate (Markup.textField text) = _
  rw [Template.instantiate_of_filling ht hms (Markup.filling_charsList text hh), map_pure]

theorem Used.render_text {history : List (Use κ)} {w : Widget κ}
    (h : Used .text templates history w) :
    w.render = drawText templates.textInput (w.answer.values.headD "") := by
  rw [render, h.kind]
  rfl

/-- A text widget that was given the markup of a document draws this document with the text entered
last put into the placeholders of its attributes, exactly as it was entered, and with its inputs
marked; before any text was entered the placeholders are empty. No text adds, removes or changes
anything else, and nothing is reported. -/
theorem render_entered_text (hw : Node.WellFormedList ns) (hh : Holed ns)
    (ht : templates.textInput.source = html ns) :
    let marked (t : Tag) : Tag :=
      if t.name = "input" || t.name = "textarea" then t.setAttribute "data-action" "submit" else t
    let drawn (text : String) := Markup.mapTags marked (putText text ns)
    let w (history : List (Use κ)) := (ofSpec .text templates : Logged (Widget κ)).value.run history
    (∀ history, ¬ Entered history → (w history).render = pure (drawn "")) ∧
      ∀ history i text later, i = .input text ∨ i = .submit text → ¬ Entered later →
        (w (history ++ .interact i :: later)).render = pure (drawn text) := by
  intro marked drawn w
  have hrender (history : List (Use κ)) :
      (w history).render = pure (drawn ((w history).answer.values.headD "")) :=
    (used_run .text templates history).render_text.trans (drawText_eq hw hh ht _)
  constructor
  · intro history hn
    have hempty : (w history).answer.isEmpty = true := by
      rw [← Bool.not_eq_false, (used_run .text templates history).entered rfl]
      exact hn
    rw [hrender, List.isEmpty_iff.mp hempty]
    rfl
  · intro history i text later hi hl
    rw [hrender, answer_run_text hi history hl]
    rfl

/-- A text of marks, quotes and references stands in the values as it was entered, twice in one of
them, and nowhere else. -/
theorem render_entered_text_marked :
    let ns : List Node := [
      .element ⟨"p", [("class", some "a \"b\" &amp; <c>")]⟩ [.text "Name > first",
        .element ⟨"input", [("value", some "\x7bvalue\x7d"), ("data-action", none)]⟩ []],
      .element ⟨"textarea", [("title", some "<\x7bvalue\x7d & \x7bvalue\x7d>")]⟩ [.text "x"]]
    let templates : Templates := .ofSources "" "" none (html ns) ""
    let text := "\"><b>\x7bvalue\x7d&lt;\n"
    let entering : List (Use String) :=
      [.interact (.input "first"), .interact (.submit text), .listen "late", .interact .confirm]
    Node.WellFormedList ns ∧ Holed ns ∧
      ((ofSpec .text templates).value.run entering).render = pure
        [.element ⟨"p", [("class", some "a \"b\" &amp; <c>")]⟩ [.text "Name > first",
          .element ⟨"input", [("value", some text), ("data-action", some "submit")]⟩ []],
          .element ⟨"textarea", [("title", some ("<" ++ text ++ " & " ++ text ++ ">")),
            ("data-action", some "submit")]⟩ [.text "x"]] := by
  intro ns templates text entering
  have hw : Node.WellFormedList ns := by decide
  have hh : Holed ns := by decide +kernel
  have hlater : ¬ Entered [.listen "late", .interact .confirm] := by
    simp [Entered, Use.Enters]
  have ht : templates.textInput.source = html ns := rfl
  obtain ⟨-, hlast⟩ := render_entered_text (κ := String) hw hh ht
  refine ⟨hw, hh, ?_⟩
  refine (hlast [.interact (.input "first")] (.submit text) text _ (.inr rfl) hlater).trans ?_
  decide +kernel

end Questionnaire.Widget

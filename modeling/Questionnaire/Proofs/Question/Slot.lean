import Questionnaire.Proofs.Markup.Place
import Questionnaire.Proofs.Placeholder.Fill
import Questionnaire.Proofs.Widget.Parity

/-! # The options slot

The template of a question is filled and parsed before the widget is put in, so the widget cannot
change how the template is read. Its nodes come behind the children of one element, and neither the
markup they were made of nor the ids they carry move them. Drawing leaves a question as it is.
-/

namespace Questionnaire.Question

open Markup (Node Tag Place)
open Markup.Node (changed withIdList?)
open Widget (Use)

/-- A question on display is used, or it is drawn. -/
inductive Turn where
  | use (u : Use String)
  | draw

def Turn.use? : Turn → Option (Use String)
  | use u => some u
  | draw => none

/-- A question with its mailbox and what has been drawn of it. -/
structure Sitting where
  question : Question
  mailbox : Mailbox
  drawings : List (Logged (List Node)) := []

namespace Sitting

def take (s : Sitting) : Turn → Sitting
  | .use u =>
    let used := Question.use (s.question, s.mailbox) u
    { s with question := used.1, mailbox := used.2 }
  | .draw => { s with drawings := s.drawings ++ [s.question.render] }

def play (s : Sitting) (ts : List Turn) : Sitting := ts.foldl take s

theorem question_play (s : Sitting) (ts : List Turn) :
    (s.play ts).question = (run (s.question, s.mailbox) (ts.filterMap Turn.use?)).1 := by
  induction ts generalizing s with
  | nil => rfl
  | cons turn ts ih => cases turn <;> exact ih _

end Sitting

section Render

variable {q : Question}

theorem frame_eq (q : Question) :
    let filled := fillReport .field q.fields q.context.templates.question.source
    let expanded := fillReport .term q.context.definitions filled.markup
    q.frame = ⟨Markup.parse expanded.markup,
      filled.missing.map .unboundPlaceholder ++ expanded.missing.map .unknownTerm⟩ := by
  simp [frame, fill, fillTerms, fillWith, bind, pure]

theorem render_of_none (h : withIdList? q.context.config.optionsSlot q.frame.value = none) :
    q.render = ⟨q.frame.value,
      q.frame.events ++ [.optionsSlotMissing q.id q.context.config.optionsSlot]⟩ := by
  simp [render, Markup.elementById?, h, Logged.report, bind, pure]

/-- The widget comes behind what the first element of the slot's id has in the frame. -/
theorem render_of_fill {p : Place} {t : Tag} {cs : List Node}
    (hf : q.frame.value = p.fill (.element t cs)) (hp : p.IsFirst q.context.config.optionsSlot)
    (ht : t.id? = some q.context.config.optionsSlot) :
    q.render = ⟨p.fill (.element t (cs ++ q.widget.render.value)),
      q.frame.events ++ q.widget.render.events⟩ := by
  have hfound := Place.withIdList?_fill hp ht cs
  have hput := Place.changed_fill hp ht
    (fun e => { e with children := e.children ++ q.widget.render.value }) cs
  rw [changed] at hput
  simp [render, Markup.elementById?, Markup.updateById?, hf, hfound, hput, bind, pure,
    Markup.Element.toNode]

end Render

/-- A question is drawn as the frame of its texts with the widget in one place. The frame is what
is parsed when the spans of fields and then those of terms have been replaced. The place is behind
the children of its first element with the id of the slot, and taking the widget's nodes from there
leaves the frame, whatever widget it is and whatever has been done to the question or drawn of it.
A frame without a slot is all that is drawn, and that is reported once. -/
theorem render_confined_to_slot (id title : String) (description : Option String)
    (context : Context) :
    let text := description.getD ""
    let fields : Bindings :=
      .ofList [("id", id), ("title", title), ("content", text), ("description", text)]
    let source := context.templates.question.source
    let filled := fillReport .field fields source
    let expanded := fillReport .term context.definitions filled.markup
    let frame := Markup.parse expanded.markup
    let warnings :=
      filled.missing.map Event.unboundPlaceholder ++ expanded.missing.map Event.unknownTerm
    let slot := context.config.optionsSlot
    let created (format : FormatSpec) (next : Table String) :=
      (create id ⟨title, description, format, next⟩ context).value
    let sitting (format : FormatSpec) (next : Table String) (m : Mailbox) (ts : List Turn) :=
      (Sitting.mk (created format next) m []).play ts
    let widget (format : FormatSpec) (next : Table String) (m : Mailbox) (ts : List Turn) :=
      (run (created format next, m) (ts.filterMap Turn.use?)).1.widget
    Fills fields source.toList (Placeholder.all .field source) filled ∧
    Fills context.definitions filled.markup.toList (Placeholder.all .term filled.markup)
      expanded ∧
    ((∃ (p : Place) (t : Tag) (cs : List Node), frame = p.fill (.element t cs) ∧
        t.id? = some slot ∧ p.IsFirst slot ∧
        ∀ format next m ts,
          let drawn := (sitting format next m ts).question.render
          let put := (widget format next m ts).render
          drawn = ⟨p.fill (.element t (cs ++ put.value)), warnings ++ put.events⟩ ∧
            changed slot (fun e => { e with children := e.children.take cs.length })
              drawn.value = frame) ∨
      (withIdList? slot frame = none ∧
        (Event.optionsSlotMissing id slot).level = .warning ∧
        ∀ format next m ts, (sitting format next m ts).question.render =
          ⟨frame, warnings ++ [.optionsSlotMissing id slot]⟩)) := by
  intro text fields source filled expanded frame warnings slot created sitting widget
  refine ⟨Placeholder.fills_fillReport .field fields source,
    Placeholder.fills_fillReport .term context.definitions filled.markup, ?_⟩
  have hquestion (format next m ts) : (sitting format next m ts).question =
      { created format next with widget := widget format next m ts } := by
    simp only [sitting, widget, Sitting.question_play]
    rw [question_run]
  have hframe (format next m ts) : (sitting format next m ts).question.frame =
      ⟨frame, warnings⟩ := by
    rw [hquestion]
    exact frame_eq _
  have hvalue (format next m ts) : (sitting format next m ts).question.frame.value = frame :=
    congrArg Logged.value (hframe format next m ts)
  cases hslot : withIdList? slot frame with
  | none =>
    refine .inr ⟨rfl, rfl, fun format next m ts => ?_⟩
    rw [render_of_none (by rw [hvalue, hquestion]; exact hslot), hframe, hquestion]
    rfl
  | some e =>
    obtain ⟨p, hp, ht, hfirst⟩ := Place.exists_fill hslot
    refine .inl ⟨p, e.tag, e.children, hp, ht, hfirst, fun format next m ts => ?_⟩
    intro drawn put
    have hdrawn : drawn = ⟨p.fill (.element e.tag (e.children ++ put.value)),
        warnings ++ put.events⟩ := by
      have hrender := render_of_fill ((hvalue format next m ts).trans hp)
        (by rw [hquestion]; exact hfirst) (by rw [hquestion]; exact ht)
      rw [hframe] at hrender
      simp only [drawn, put, hrender, hquestion]
    refine ⟨hdrawn, ?_⟩
    rw [hdrawn, Place.changed_fill hfirst ht, Markup.Element.toNode, List.take_left]
    exact hp.symm

end Questionnaire.Question

import Questionnaire.Proofs.Markup.Lookup
import Questionnaire.Proofs.Widget.Parity

/-! # Controls of a choice

The blocks of a choice stand in the order of its options, and each is made of the template, the
option and whether it is selected. What can be clicked in a block carries the option as it is,
whatever markup the option looks like, so a click on it is a click on that option.
-/

namespace Questionnaire

open Markup (Node Tag elementsByClass)

namespace Markup

theorem mem_elementsByClass_mapTags {g : Tag → Tag} {cls : String} {ns : List Node} {e : Element}
    (hg : ∀ t, (g t).hasClass cls = t.hasClass cls) (h : e ∈ elementsByClass cls (mapTags g ns)) :
    ∃ t : Tag, t.hasClass cls ∧ e.tag = g t := by
  rw [elementsByClass, mapTags, Node.elementsList_mapTagsList, List.mem_filter] at h
  obtain ⟨hm, hc⟩ := h
  obtain ⟨e, -, rfl⟩ := List.mem_map.mp hm
  exact ⟨e.tag, by rwa [hg] at hc, rfl⟩

end Markup

namespace Widget

theorem hasClass_markOption (option : String) (selected : Bool) (t : Tag) (cls : String) :
    (markOption option selected t).hasClass cls = t.hasClass cls := by
  have ha : answerAttribute ≠ "class" := by decide
  have hs : selectedAttribute ≠ "class" := by decide
  rw [markOption]
  split
  · cases selected with
    | false => exact Tag.hasClass_setAttribute_of_ne ha _ _
    | true =>
      exact (Tag.hasClass_setAttribute_of_ne hs _ _).trans (Tag.hasClass_setAttribute_of_ne ha _ _)
  · rfl

theorem hasClass_markConfirm (t : Tag) (cls : String) :
    (markConfirm t).hasClass cls = t.hasClass cls := by
  rw [markConfirm]
  split
  · exact Tag.hasClass_setAttribute_of_ne (by decide) _ _
  · rfl

/-- The nodes of an option: the template with the option put in and its clickable elements
marked. -/
def block (template : Template) (selected : Bool) (option : String) : List Node :=
  (drawOption template selected option).value

section Blocks

variable {template : Template} {selected : Bool} {option : String} {e : Markup.Element}

theorem attributes_of_mem_block
    (h : e ∈ elementsByClass clickableClass (block template selected option)) :
    e.tag.attribute? answerAttribute = some option ∧
      (selected → e.tag.attribute? selectedAttribute = some "true") := by
  obtain ⟨t, ht, he⟩ := Markup.mem_elementsByClass_mapTags
    (fun t => hasClass_markOption option selected t clickableClass) h
  have hne : answerAttribute ≠ selectedAttribute := by decide
  rw [he, markOption, if_pos ht]
  cases selected with
  | false => exact ⟨Tag.attribute?_setAttribute_self _ _ _, nofun⟩
  | true =>
    refine ⟨?_, fun _ => Tag.attribute?_setAttribute_self _ _ _⟩
    exact (Tag.attribute?_setAttribute_of_ne hne).trans (Tag.attribute?_setAttribute_self _ _ _)

theorem attribute_of_mem_drawConfirm {control : Template}
    (h : e ∈ elementsByClass clickableClass (drawConfirm control)) :
    e.tag.attribute? actionAttribute = some "confirm" := by
  obtain ⟨t, ht, he⟩ := Markup.mem_elementsByClass_mapTags
    (fun t => hasClass_markConfirm t clickableClass) h
  rw [he, markConfirm, if_pos ht]
  exact Tag.attribute?_setAttribute_self _ _ _

end Blocks

variable {κ : Type} {w : Widget κ}

theorem value_render_select {template : Template} {multiple : Bool} {options : List String}
    {confirm : Option Template} (h : w.kind = .select template multiple options confirm) :
    w.render.value = (options.map fun o => block template (w.answer.contains o) o).flatten ++
      if multiple then confirm.elim [] drawConfirm else [] := by
  have hblocks := Logged.value_mapM (fun o => drawOption template (w.answer.contains o) o) options
  simp only [render, h, Logged.value_bind, hblocks]
  cases multiple <;> cases confirm <;> simp [block]

theorem events_click {template : Template} {multiple : Bool} {options : List String}
    {confirm : Option Template} (h : w.kind = .select template multiple options confirm)
    {option : String} (ho : option ∈ options) : (w.interact (.click option)).events = [] := by
  cases multiple <;> simp [interact, h, ho]

theorem contains_click {options : List String} {option : String} (ho : option ∈ options)
    (templates : Templates) (history : List (Use κ)) :
    let w := (ofSpec (.select true options) templates : Logged (Widget κ)).value.run history
    (w.interact (.click option)).value.widget.answer.contains option =
      !w.answer.contains option := by
  intro w
  have hstep : (w.interact (.click option)).value.widget =
      (ofSpec (.select true options) templates).value.run
        (history ++ [.interact (.click option)]) :=
    (run_concat _ history (.interact (.click option))).symm
  rw [hstep, answer_run_select, answer_run_select, Answer.contains_odd ho, Answer.contains_odd ho,
    clicks_concat]
  simp only [Use.isClick, decide_true, if_true]
  grind

theorem confirmed_click {options : List String} {option : String} (ho : option ∈ options)
    (templates : Templates) (history : List (Use κ)) :
    let w := (ofSpec (.select false options) templates : Logged (Widget κ)).value.run history
    (w.interact (.click option)).value.confirmed = some (.single option) :=
  ((used_run _ templates history).confirms_iff _ _).mpr (.option ho)

/-- A choice is drawn as one block for each option, in their order, and the confirm control where
several can be chosen and there is one. The block of an option is the option's template with the
option put in, and the confirm control is its template; in both, only what can be clicked is marked.
It carries exactly the option, and that it is selected if it is, or that it confirms. A click with
what it carries always counts: it selects or deselects the option where several can be chosen, and
confirms it otherwise. -/
theorem render_controls (multiple : Bool) (options : List String) (templates : Templates)
    (history : List (Use κ)) :
    let w := (ofSpec (.select multiple options) templates : Logged (Widget κ)).value.run history
    let document (option : String) : List Node :=
      Markup.parse (fill .field (.ofList [("name", option)]) templates.option.source).value
    let drawn (option : String) : List Node :=
      Markup.mapTags (fun t =>
        if t.hasClass "clickable" then
          if w.answer.contains option
          then (t.setAttribute "data-answer" option).setAttribute "data-selected" "true"
          else t.setAttribute "data-answer" option
        else t) (document option)
    let confirm (control : Template) : List Node :=
      Markup.mapTags (fun t =>
        if t.hasClass "clickable" then t.setAttribute "data-action" "confirm" else t)
        (Markup.parse control.source)
    (∀ t : Tag, t.hasClass "clickable" ↔ ∃ classes, t.attribute? "class" = some classes ∧
        Text.IsWord "clickable".toList classes.toList) ∧
      w.render.value = (options.map drawn).flatten ++
        (if multiple then templates.confirm.elim [] confirm else []) ∧
      (∀ option ∈ options, ∀ e ∈ elementsByClass "clickable" (drawn option),
        e.tag.attribute? "data-answer" = some option ∧
          (w.answer.contains option → e.tag.attribute? "data-selected" = some "true") ∧
          ∀ answer, e.tag.attribute? "data-answer" = some answer →
            let r := w.interact (.click answer)
            r.events = [] ∧
              if multiple then r.value.widget.answer.contains answer = !w.answer.contains answer
              else r.value.confirmed = some (.single answer)) ∧
      (∀ option, w.answer.contains option = false → drawn option =
        Markup.mapTags (fun t =>
            if t.hasClass "clickable" then t.setAttribute "data-answer" option else t)
          (document option)) ∧
      ∀ control ∈ templates.confirm, ∀ e ∈ elementsByClass "clickable" (confirm control),
        e.tag.attribute? "data-action" = some "confirm" := by
  intro w document drawn confirm
  have hused : Used (.select multiple options) templates history w := used_run _ templates history
  refine ⟨fun _ => Tag.hasClass_iff, value_render_select hused.kind, fun option ho e he => ?_,
    fun option hs => ?_, fun control _ e he => attribute_of_mem_drawConfirm he⟩
  · have hblock : e ∈ elementsByClass clickableClass
        (block templates.option (w.answer.contains option) option) := he
    obtain ⟨hanswer, hselected⟩ := attributes_of_mem_block hblock
    refine ⟨hanswer, hselected, fun answer ha => ?_⟩
    intro r
    obtain rfl : option = answer := Option.some.inj (hanswer.symm.trans ha)
    refine ⟨events_click hused.kind ho, ?_⟩
    cases multiple with
    | true => exact contains_click ho templates history
    | false => exact confirmed_click ho templates history
  · simp only [drawn, hs]
    rfl

/-- An option that brings another clickable element with it is the answer of both. -/
example :
    let option := "<i class=\"clickable\">&\""
    let template : Template := ⟨"option", "<b class=clickable>\x7bname\x7d</b>"⟩
    (elementsByClass "clickable" (block template true option)).map (·.tag) =
      [⟨"b", [("class", some "clickable"), ("data-answer", some option),
        ("data-selected", some "true")]⟩,
       ⟨"i", [("class", some "clickable"), ("data-answer", some option),
        ("data-selected", some "true")]⟩] := by decide +kernel

end Widget

end Questionnaire

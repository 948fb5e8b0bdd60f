import Mathlib.Logic.Function.Basic
import Questionnaire.Form
import Questionnaire.Proofs.Graph.Build

/-! # Interpreting an outline

A session is the question that is shown and the answers given so far. It is taken
from interaction to interaction by what the outline says, without widgets,
listeners or a mailbox.
-/

namespace Questionnaire

/-- The answer after an interaction, and whether the interaction confirms it. -/
def FormatSpec.react (confirmable : Bool) (f : FormatSpec) (i : Interaction) (a : Answer) :
    Answer × Bool :=
  match f, i with
  | .select multiple options, .click option =>
    if option ∉ options then (a, false)
    else if multiple then (a.toggle options option, false)
    else (.single option, true)
  | .select multiple _, .confirm => (a, multiple && confirmable)
  | .text, .input value => (.single value, false)
  | .text, .confirm => (a, !a.isEmpty)
  | .text, .submit value => (.single value, true)
  | _, _ => (a, false)

/-- Where an answer leads: nowhere when it is empty, by its value when it has one, and by its
values with a separator between them when it has several. -/
def QuestionSpec.target? (separator : String) (q : QuestionSpec) (a : Answer) : Option String :=
  match a.values with
  | [] => none
  | [value] => q.next.get? value
  | values => q.next.get? (separator.intercalate values)

structure Chart where
  start : String
  spec? : String → Option QuestionSpec
  confirmable : Bool
  separator : String

def Resources.chart (r : Resources) (config : Config) : Chart where
  start := r.outline.start
  spec? := r.outline.spec?
  confirmable := r.templates.confirm.isSome
  separator := config.answerSeparator

structure Session where
  shown : Option String
  answers : String → Answer

namespace Chart

variable (c : Chart)

def opening : Session where
  shown := if (c.spec? c.start).isSome then some c.start else none
  answers _ := .empty

/-- The question behind a confirmed one: the target if it is a question, or the same. -/
def follow (id : String) (target : Option String) : String :=
  (target.filter fun next => (c.spec? next).isSome).getD id

def answer (s : Session) (id : String) (spec : QuestionSpec) (i : Interaction) :
    Session × List Transition :=
  let r := spec.format.react c.confirmable i (s.answers id)
  let target := spec.target? c.separator r.1
  let answers := Function.update s.answers id r.1
  if r.2 then (⟨some (c.follow id target), answers⟩, [⟨id, r.1, target⟩])
  else (⟨some id, answers⟩, [])

def step (s : Session) (i : Interaction) : Session × List Transition :=
  match s.shown with
  | none => (s, [])
  | some id =>
    match c.spec? id with
    | none => (s, [])
    | some spec => c.answer s id spec i

def run (s : Session) : List Interaction → Session × List (List Transition)
  | [] => (s, [])
  | i :: is =>
    let (s, ts) := c.step s i
    let (s, tss) := run s is
    (s, ts :: tss)

variable {c} {s : Session}

theorem step_of_none (i : Interaction) (h : s.shown = none) : c.step s i = (s, []) := by
  simp [step, h]

theorem step_of_unknown (i : Interaction) {id : String} (h : s.shown = some id)
    (hs : c.spec? id = none) : c.step s i = (s, []) := by
  simp [step, h, hs]

theorem step_of_some (i : Interaction) {id : String} {spec : QuestionSpec}
    (h : s.shown = some id) (hs : c.spec? id = some spec) :
    c.step s i = c.answer s id spec i := by
  simp [step, h, hs]

theorem follow_of_none {id next : String} (h : c.spec? next = none) :
    c.follow id (some next) = id := by
  simp [follow, Option.filter, h]

theorem follow_of_some {id next : String} {spec : QuestionSpec} (h : c.spec? next = some spec) :
    c.follow id (some next) = next := by
  simp [follow, Option.filter, h]

def Shows (c : Chart) (s : Session) : Prop :=
  ∀ id, s.shown = some id → ∃ spec, c.spec? id = some spec

theorem shows_opening (c : Chart) : c.Shows c.opening := by
  intro id h
  simp only [opening, Option.ite_none_right_eq_some, Option.some.injEq] at h
  obtain ⟨hs, rfl⟩ := h
  exact Option.isSome_iff_exists.mp hs

theorem Shows.step (h : c.Shows s) (i : Interaction) : c.Shows (c.step s i).1 := by
  intro next hn
  cases hid : s.shown with
  | none =>
    rw [step_of_none i hid] at hn
    exact h next hn
  | some id =>
    obtain ⟨spec, hs⟩ := h id hid
    have hf : ∃ spec', c.spec? (c.follow id (spec.target? c.separator
        (spec.format.react c.confirmable i (s.answers id)).1)) = some spec' := by
      cases ht : spec.target? c.separator (spec.format.react c.confirmable i (s.answers id)).1 with
      | none => exact ⟨spec, hs⟩
      | some t =>
        cases hq : c.spec? t with
        | none => exact ⟨spec, (follow_of_none hq).symm ▸ hs⟩
        | some spec' => exact ⟨spec', (follow_of_some hq).symm ▸ hq⟩
    rw [step_of_some i hid hs, answer] at hn
    split at hn
    · exact Option.some.inj hn ▸ hf
    · exact Option.some.inj hn ▸ ⟨spec, hs⟩

theorem Shows.run (h : c.Shows s) (is : List Interaction) : c.Shows (c.run s is).1 := by
  induction is generalizing s with
  | nil => exact h
  | cons i is ih => exact ih (h.step i)

end Chart

end Questionnaire

import Questionnaire.Proofs.Form.Interpreter

/-! # Questions with answers

A widget answers and confirms as its format says. The only listener of a question as
it is created is the mailbox, so a confirmed answer is sent as one transition, and
the question is then the created one with that answer.
-/

namespace Questionnaire

namespace Widget

variable {κ : Type} {w : Widget κ} (i : Interaction)

def reacted (w : Widget κ) (r : Answer × Bool) : Reaction κ :=
  if r.2 then (w.withAnswer r.1).confirm else (w.withAnswer r.1).keep

@[simp] theorem withAnswer_answer (w : Widget κ) : w.withAnswer w.answer = w := rfl

theorem value_interact_select {template : Template} {multiple : Bool} {options : List String}
    {confirm : Option Template} (h : w.kind = .select template multiple options confirm) :
    (w.interact i).value =
      w.reacted ((FormatSpec.select multiple options).react confirm.isSome i w.answer) := by
  cases i with
  | click option =>
    by_cases ho : option ∈ options <;> cases multiple <;>
      simp [interact, h, FormatSpec.react, reacted, ho]
  | confirm =>
    cases multiple <;> cases confirm <;> simp [interact, h, FormatSpec.react, reacted]
  | input value => simp [interact, h, FormatSpec.react, reacted]
  | submit value => simp [interact, h, FormatSpec.react, reacted]

theorem value_interact_text {template : Template} (h : w.kind = .text template)
    (confirmable : Bool) : (w.interact i).value =
      w.reacted (FormatSpec.text.react confirmable i w.answer) := by
  cases i with
  | confirm =>
    cases ha : w.answer.isEmpty <;> simp [interact, h, FormatSpec.react, reacted, ha]
  | click option => simp [interact, h, FormatSpec.react, reacted]
  | input value => simp [interact, h, FormatSpec.react, reacted]
  | submit value => simp [interact, h, FormatSpec.react, reacted]

theorem exists_reacted (w : Widget κ) : ∃ r, (w.interact i).value = w.reacted r := by
  cases hk : w.kind with
  | select template multiple options confirm => exact ⟨_, value_interact_select i hk⟩
  | text template => exact ⟨_, value_interact_text i hk true⟩

section Reacted

variable (w : Widget κ) (r : Answer × Bool)

theorem widget_reacted : (w.reacted r).widget = w.withAnswer r.1 := by
  rw [reacted]
  split <;> rfl

theorem confirmed_reacted : (w.reacted r).confirmed = if r.2 then some r.1 else none := by
  rw [reacted]
  split <;> rfl

theorem calls_reacted : (w.reacted r).calls =
    if r.2 then w.listeners.toList.map (·, r.1) else [] := by
  rw [reacted]
  split <;> rfl

end Reacted

def kindOf (format : FormatSpec) (templates : Templates) : WidgetKind :=
  match format with
  | .select multiple options => .select templates.option multiple options templates.confirm
  | .text => .text templates.textInput

theorem value_ofSpec (format : FormatSpec) (templates : Templates) :
    (ofSpec format templates : Logged (Widget κ)).value = { kind := kindOf format templates } := by
  cases format with
  | select multiple options =>
    simp only [ofSpec]
    split <;> rfl
  | text => rfl

theorem value_interact {format : FormatSpec} {templates : Templates}
    (h : w.kind = kindOf format templates) :
    (w.interact i).value = w.reacted (format.react templates.confirm.isSome i w.answer) := by
  cases format with
  | select multiple options => exact value_interact_select i h
  | text => exact value_interact_text i h _

end Widget

namespace Question

theorem foldl_deliver_observers (q : Question) (m : Mailbox) (names : List String) (a : Answer) :
    ((names.map Listener.observer).map (·, a)).foldl q.deliver m = m := by
  induction names with
  | nil => rfl
  | cons name names ih => exact ih

theorem observed_observers (names : List String) (a : Answer) :
    observed ((names.map Listener.observer).map (·, a)) = names.map (·, a) := by
  induction names with
  | nil => rfl
  | cons name names ih => exact congrArg ((name, a) :: ·) ih

theorem value_interact {q : Question} {names : List String} {i : Interaction} {r : Answer × Bool}
    (hl : q.widget.listeners.toList = .mailbox :: names.map .observer)
    (hr : (q.widget.interact i).value = q.widget.reacted r) (m : Mailbox) :
    (q.interact i m).value =
      ⟨{ q with widget := q.widget.withAnswer r.1 },
        if r.2 then m.send (q.transition r.1) else m,
        if r.2 then some r.1 else none,
        if r.2 then names.map (·, r.1) else []⟩ := by
  simp only [interact, Logged.value_bind, hr, Widget.widget_reacted, Widget.confirmed_reacted,
    Widget.calls_reacted, hl]
  cases r.2 with
  | false => rfl
  | true =>
    simp only [if_true, List.map_cons, List.foldl_cons, foldl_deliver_observers]
    exact congrArg (Outcome.mk { q with widget := q.widget.withAnswer r.1 }
      (m.send (q.transition r.1)) (some r.1)) (observed_observers names r.1)

def answered (id : String) (spec : QuestionSpec) (context : Context) (a : Answer) : Question :=
  let q := (create id spec context).value
  { q with widget := q.widget.withAnswer a }

variable (id : String) (spec : QuestionSpec) (context : Context) (a : Answer)

theorem value_create : (create id spec context).value =
    ⟨id, spec.title, spec.description,
      { kind := Widget.kindOf spec.format context.templates, listeners := ⟨[.mailbox]⟩ },
      spec.next, context⟩ := by
  simp only [create, Logged.value_bind, Widget.value_ofSpec]
  rfl

theorem answered_eq : answered id spec context a =
    ⟨id, spec.title, spec.description,
      ⟨Widget.kindOf spec.format context.templates, a, ⟨[.mailbox]⟩⟩, spec.next, context⟩ := by
  rw [answered, value_create]
  rfl

theorem answered_empty : answered id spec context .empty = (create id spec context).value := by
  rw [answered_eq, value_create]

@[simp] theorem answer_answered : (answered id spec context a).answer = a := rfl

theorem nextFor_answered (b : Answer) : (answered id spec context a).nextFor b =
    spec.target? context.config.answerSeparator b := by
  rw [answered_eq, nextFor, QuestionSpec.target?, Answer.key?]
  rcases b with ⟨_ | ⟨v, _ | ⟨w, vs⟩⟩⟩ <;> rfl

/-- A question sends a transition for the answer that its format confirms. -/
theorem value_interact_answered (i : Interaction) (m : Mailbox) :
    let r := spec.format.react context.templates.confirm.isSome i a
    let o := ((answered id spec context a).interact i m).value
    o.question = answered id spec context r.1 ∧
      o.mailbox = if r.2 then
        m.send ⟨id, r.1, spec.target? context.config.answerSeparator r.1⟩ else m := by
  intro r o
  have hw : ((answered id spec context a).widget.interact i).value =
      (answered id spec context a).widget.reacted r :=
    Widget.value_interact i (by rw [answered_eq])
  have hl : (answered id spec context a).widget.listeners.toList =
      .mailbox :: ([] : List String).map .observer := by
    rw [answered_eq]
    rfl
  have ht : (answered id spec context a).transition r.1 =
      ⟨id, r.1, spec.target? context.config.answerSeparator r.1⟩ := by
    rw [transition, nextFor_answered, answered_eq]
  have ho := value_interact hl hw m
  rw [ht] at ho
  exact ⟨congrArg Outcome.question ho, congrArg Outcome.mailbox ho⟩

end Question

end Questionnaire

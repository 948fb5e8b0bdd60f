import Mathlib.Data.List.Induction
import Questionnaire.Proofs.Question.Answered

/-! # Confirming answers

A widget is used by adding listeners and by interactions, in any order. Which interactions
confirm an answer depends on the format and, for a text, on whether one has been entered.
A confirmed answer is told once to each listener added so far, and to nobody otherwise.
-/

namespace Questionnaire

namespace FormatSpec

def isMultiple : FormatSpec → Bool
  | select multiple _ => multiple
  | text => false

variable {f : FormatSpec} {confirmable : Bool} {a : Answer}

theorem react_eq_or_single (hf : f.isMultiple = false) (i : Interaction) :
    (f.react confirmable i a).1 = a ∨ ∃ value, (f.react confirmable i a).1 = .single value := by
  cases f with
  | select multiple options =>
    obtain rfl : multiple = false := hf
    cases i with
    | click option =>
      by_cases ho : option ∈ options
      · exact .inr ⟨option, by simp [react, ho]⟩
      · exact .inl (by simp [react, ho])
    | _ => exact .inl rfl
  | text =>
    cases i with
    | input value => exact .inr ⟨value, rfl⟩
    | submit value => exact .inr ⟨value, rfl⟩
    | _ => exact .inl rfl

end FormatSpec

namespace Widget

variable {κ : Type}

inductive Use (κ : Type) where
  | listen (k : κ)
  | interact (i : Interaction)

def use (w : Widget κ) : Use κ → Widget κ
  | .listen k => w.addListener k
  | .interact i => (w.interact i).value.widget

def run (w : Widget κ) (us : List (Use κ)) : Widget κ := us.foldl use w

@[simp] theorem run_concat (w : Widget κ) (us : List (Use κ)) (u : Use κ) :
    w.run (us ++ [u]) = (w.run us).use u := List.foldl_append

namespace Use

def listener? : Use κ → Option κ
  | listen k => some k
  | interact _ => none

def listeners (us : List (Use κ)) : List κ := us.filterMap listener?

/-- The step puts a text into a text widget. -/
def Enters (u : Use κ) : Prop :=
  ∃ value, u = .interact (.input value) ∨ u = .interact (.submit value)

/-- A text has been put into a text widget, the empty text included. -/
def Entered (us : List (Use κ)) : Prop := ∃ u ∈ us, u.Enters

theorem entered_concat {us : List (Use κ)} {u : Use κ} :
    Entered (us ++ [u]) ↔ Entered us ∨ u.Enters := by
  simp [Entered, or_and_right, exists_or]

end Use

open Use (Entered)

/-- The interactions that confirm an answer after a history, and the answer confirmed. -/
inductive Confirms (templates : Templates) (history : List (Use κ)) (before : Answer) :
    FormatSpec → Interaction → Answer → Prop where
  | option {options : List String} {option : String} : option ∈ options →
      Confirms templates history before (.select false options) (.click option) (.single option)
  | control {options : List String} : templates.confirm.isSome →
      Confirms templates history before (.select true options) .confirm before
  | submission (value : String) :
      Confirms templates history before .text (.submit value) (.single value)
  | entry : Entered history → Confirms templates history before .text .confirm before

/-- The interactions that change an answer without confirming it, and the answer after them. -/
inductive Alters (before : Answer) : FormatSpec → Interaction → Answer → Prop where
  | toggle {options : List String} {option : String} : option ∈ options →
      Alters before (.select true options) (.click option) (before.toggle options option)
  | input (value : String) : Alters before .text (.input value) (.single value)

/-- What a history makes of a widget of a format. -/
structure Used (format : FormatSpec) (templates : Templates) (history : List (Use κ))
    (w : Widget κ) : Prop where
  kind : w.kind = kindOf format templates
  listeners : w.listeners.toList = Use.listeners history
  entered : format = .text → (w.answer.isEmpty = false ↔ Entered history)
  size : format.isMultiple = false → w.answer.size ≤ 1

variable {format : FormatSpec} {templates : Templates} {history : List (Use κ)} {w : Widget κ}

theorem used_ofSpec (format : FormatSpec) (templates : Templates) :
    Used format templates [] (ofSpec format templates : Logged (Widget κ)).value := by
  rw [value_ofSpec]
  refine ⟨rfl, rfl, fun _ => iff_of_false Bool.noConfusion ?_, fun _ => Nat.zero_le 1⟩
  rintro ⟨u, hu, -⟩
  cases hu

theorem Used.listen (h : Used format templates history w) (k : κ) :
    Used format templates (history ++ [.listen k]) (w.addListener k) where
  kind := h.kind
  listeners := by
    change w.listeners.toList ++ [k] = _
    rw [h.listeners, Use.listeners, Use.listeners, List.filterMap_append]
    rfl
  entered hf := by
    have hk : ¬ (Use.listen k).Enters := by simp [Use.Enters]
    rw [Use.entered_concat, or_iff_left hk]
    exact h.entered hf
  size := h.size

theorem isEmpty_react_text {confirmable : Bool} {a : Answer} (i : Interaction) :
    (FormatSpec.text.react confirmable i a).1.isEmpty = false ↔
      a.isEmpty = false ∨ (Use.interact i : Use κ).Enters := by
  cases i <;> simp [FormatSpec.react, Use.Enters, Answer.single, Answer.isEmpty]

theorem Used.value_interact (h : Used format templates history w) (i : Interaction) :
    (w.interact i).value =
      w.reacted (format.react templates.confirm.isSome i w.answer) :=
  Widget.value_interact i h.kind

theorem Used.interact (h : Used format templates history w) (i : Interaction) :
    Used format templates (history ++ [.interact i]) (w.interact i).value.widget := by
  rw [h.value_interact, widget_reacted]
  refine ⟨h.kind, ?_, ?_, fun hf => ?_⟩
  · change w.listeners.toList = _
    rw [h.listeners, Use.listeners, Use.listeners, List.filterMap_append]
    exact (List.append_nil _).symm
  · rintro rfl
    rw [Use.entered_concat, ← h.entered rfl]
    exact isEmpty_react_text i
  · change Answer.size (format.react _ i w.answer).1 ≤ 1
    rcases FormatSpec.react_eq_or_single hf i with ha | ⟨value, ha⟩ <;> rw [ha]
    · exact h.size hf
    · exact Nat.le_refl 1

theorem used_run (format : FormatSpec) (templates : Templates) (history : List (Use κ)) :
    Used format templates history ((ofSpec format templates).value.run history) := by
  induction history using List.reverseRecOn with
  | nil => exact used_ofSpec format templates
  | append_singleton us u ih =>
    rw [run_concat]
    cases u with
    | listen k => exact ih.listen k
    | interact i => exact ih.interact i

/-- A widget confirms what its format lets it confirm. -/
theorem Used.confirms_iff (h : Used format templates history w) (i : Interaction) (a : Answer) :
    (w.interact i).value.confirmed = some a ↔
      Confirms templates history w.answer format i a := by
  rw [h.value_interact, confirmed_reacted, Option.ite_none_right_eq_some, Option.some.injEq]
  constructor
  · rintro ⟨hc, rfl⟩
    cases format with
    | select multiple options =>
      cases i with
      | click option =>
        by_cases ho : option ∈ options <;> cases multiple <;> simp [FormatSpec.react, ho] at hc ⊢
        exact .option ho
      | confirm =>
        obtain ⟨rfl, ht⟩ := Bool.and_eq_true_iff.mp hc
        exact .control ht
      | _ => cases hc
    | text =>
      cases i with
      | confirm => exact .entry ((h.entered rfl).mp (Bool.not_eq_true' _ ▸ hc))
      | submit value => exact .submission value
      | _ => cases hc
  · rintro (ho | ht | _ | he)
    · simp [FormatSpec.react, ho]
    · simp [FormatSpec.react, ht]
    · exact ⟨rfl, rfl⟩
    · simp [FormatSpec.react, (h.entered rfl).mpr he]

theorem Used.alters (h : Used format templates history w) {i : Interaction}
    (hn : (w.interact i).value.confirmed = none) :
    (w.interact i).value.widget.answer = w.answer ∨
      Alters w.answer format i (w.interact i).value.widget.answer := by
  rw [h.value_interact, confirmed_reacted] at hn
  rw [h.value_interact, widget_reacted]
  change (format.react _ i w.answer).1 = w.answer ∨
    Alters w.answer format i (format.react _ i w.answer).1
  cases format with
  | select multiple options =>
    cases i with
    | click option =>
      by_cases ho : option ∈ options <;> cases multiple <;> simp [FormatSpec.react, ho] at hn ⊢
      exact .inr (.toggle ho)
    | _ => exact .inl rfl
  | text =>
    cases i with
    | input value => exact .inr (.input value)
    | submit value => cases hn
    | _ => exact .inl rfl

/-- An interaction confirms an answer exactly if the format lets it. The answer confirmed is that
of the widget afterwards, and each listener is told it once, in the order of adding. Without a
confirmation nobody is told, and an answer changes only by the input of a text or by a click on
one of several options to choose. A multiple choice without a confirm control never confirms.
Otherwise there is at most one value, and an answer that has been given is not taken back. -/
theorem confirmed_iff_confirms (format : FormatSpec) (templates : Templates)
    (history : List (Use κ)) (i : Interaction) :
    let w := (ofSpec format templates : Logged (Widget κ)).value.run history
    let r := (w.interact i).value
    (∀ a, r.confirmed = some a ↔ Confirms templates history w.answer format i a) ∧
      (∀ a, r.confirmed = some a →
        r.widget.answer = a ∧ r.calls = (Use.listeners history).map (·, a)) ∧
      (r.confirmed = none → r.calls = [] ∧
        (r.widget.answer = w.answer ∨ Alters w.answer format i r.widget.answer)) ∧
      (∀ options, format = .select true options → templates.confirm = none →
        r.confirmed = none) ∧
      (format.isMultiple = false → r.widget.answer.size ≤ 1 ∧
        (w.answer.isEmpty = false → r.widget.answer.isEmpty = false)) := by
  intro w r
  have h : Used format templates history w := used_run format templates history
  have hr : r = w.reacted (format.react templates.confirm.isSome i w.answer) := h.value_interact i
  have hw : r.widget.answer = (format.react templates.confirm.isSome i w.answer).1 := by
    rw [hr, widget_reacted]
    rfl
  refine ⟨h.confirms_iff i, ?_, ?_, ?_, ?_⟩
  · intro a ha
    rw [hr, confirmed_reacted, Option.ite_none_right_eq_some] at ha
    obtain ⟨hc, ha⟩ := ha
    rw [hw, hr, calls_reacted, if_pos hc, h.listeners, Option.some.inj ha]
    exact ⟨rfl, rfl⟩
  · intro hn
    refine ⟨?_, h.alters hn⟩
    rw [hr, confirmed_reacted] at hn
    rw [hr, calls_reacted, if_neg (by simpa using hn)]
  · rintro options rfl ht
    refine Option.eq_none_iff_forall_ne_some.mpr fun a ha => ?_
    obtain _ | ht' := (h.confirms_iff i a).mp ha
    simp [ht] at ht'
  · intro hf
    refine ⟨(h.interact i).size hf, fun ha => ?_⟩
    rw [hw]
    rcases FormatSpec.react_eq_or_single hf i with he | ⟨value, he⟩ <;> rw [he]
    · exact ha
    · rfl

/-- A text that was entered empty is confirmed, and both listeners are told it. A choice that
nothing can confirm keeps its answer to itself. -/
theorem confirmed_empty_text :
    let templates : Templates := .ofSources "" "" none "" ""
    let entering : List (Use String) :=
      [.listen "first", .interact (.input ""), .listen "second", .interact (.click "A")]
    let text := (ofSpec .text templates : Logged (Widget String)).value.run entering
    let choosing : List (Use String) := [.listen "first", .interact (.click "A")]
    let choice := (ofSpec (.select true ["A"]) templates : Logged (Widget String)).value.run choosing
    (text.interact .confirm).value.confirmed = some (.single "") ∧
      (text.interact .confirm).value.calls = [("first", .single ""), ("second", .single "")] ∧
      (text.interact .confirm).value.widget.answer.size ≤ 1 ∧
      (text.interact .confirm).value.widget.answer.isEmpty = false ∧
      (choice.interact .confirm).value.confirmed = none ∧
      (choice.interact .confirm).value.calls = [] := by
  intro templates entering text choosing choice
  obtain ⟨htext, htold, -, -, hone⟩ := confirmed_iff_confirms .text templates entering .confirm
  obtain ⟨-, -, hsilent, hnever, -⟩ :=
    confirmed_iff_confirms (.select true ["A"]) templates choosing .confirm
  have hentered : Entered entering := ⟨_, .tail _ (.head _), "", .inl rfl⟩
  have hconfirmed := (htext (.single "")).mpr (.entry hentered)
  have hnone := hnever ["A"] rfl rfl
  exact ⟨hconfirmed, (htold _ hconfirmed).2, (hone rfl).1, (hone rfl).2 rfl, hnone,
    (hsilent hnone).1⟩

end Widget

end Questionnaire

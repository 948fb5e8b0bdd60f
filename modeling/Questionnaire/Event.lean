import Questionnaire.Error

/-! # Events

Operations report what an author should know of as events, in the order in which
they arise. A logged value is a value with the events of its making.
-/

namespace Questionnaire

inductive Event where
  | unboundPlaceholder (key : String)
  | unknownTerm (term : String)
  | unconfirmableSelect
  | unknownOption (option : String)
  | confirmControlMissing
  | confirmTemplateMissing
  | optionsSlotMissing (question slot : String)
  | questionDropped (question : String) (cause : SpecError)
  | danglingTransition (question answer target : String)
  | loadFailed (cause : FormError)
  | questionsDropped (count : Nat)
  | startMissing (start : String)
  | advanceTooEarly (next : String)
  | nextMissing (next : String)
  | regionMissing (region : String)
  deriving DecidableEq, Repr

namespace Event

inductive Level where
  | warning
  | error
  deriving DecidableEq, Repr

inductive Field where
  | text (s : String)
  | count (n : Nat)
  deriving DecidableEq, Repr

def level : Event → Level
  | unconfirmableSelect | confirmTemplateMissing | loadFailed _ | startMissing _ => .error
  | _ => .warning

def message : Event → String
  | unboundPlaceholder _ => "No data defined to fill template placeholder, skipping"
  | unknownTerm _ => "Term was not found in known terminology, skipping"
  | unconfirmableSelect =>
    "Multiple-choice select has no confirm template; it can never be confirmed"
  | unknownOption _ => "Clicked option is not part of this select, ignoring"
  | confirmControlMissing => "Select has no confirm control, ignoring confirm"
  | confirmTemplateMissing =>
    "Failed to add confirm button because the template could not be found"
  | optionsSlotMissing _ _ =>
    "Question template has no options slot, answer format not rendered"
  | questionDropped _ _ => "Dropping question from the form"
  | danglingTransition _ _ _ => "Transition leads to an unknown question"
  | loadFailed _ => "Failed to load form resources"
  | questionsDropped _ => "Some questions could not be built"
  | startMissing _ => "Start question is not in the question graph"
  | advanceTooEarly _ => "Cannot advance before the form is initialized"
  | nextMissing _ => "Next question is not in the question graph, staying"
  | regionMissing _ => "Page has no display region, question not shown"

def fields : Event → List (String × Field)
  | unboundPlaceholder key => [("placeholder", .text key)]
  | unknownTerm term => [("term", .text term)]
  | unconfirmableSelect | confirmControlMissing | confirmTemplateMissing => []
  | unknownOption option => [("option", .text option)]
  | optionsSlotMissing question slot => [("question", .text question), ("slot", .text slot)]
  | questionDropped question cause =>
    [("question", .text question), ("error", .text cause.message)]
  | danglingTransition question answer target =>
    [("question", .text question), ("answer", .text answer), ("target", .text target)]
  | loadFailed cause => [("error", .text cause.message)]
  | questionsDropped count => [("dropped", .count count)]
  | startMissing start => [("start", .text start)]
  | advanceTooEarly next | nextMissing next => [("next", .text next)]
  | regionMissing region => [("region", .text region)]

end Event

structure Logged (α : Type) where
  value : α
  events : List Event := []
  deriving DecidableEq, Repr

namespace Logged

variable {α β γ : Type}

instance : Monad Logged where
  pure a := ⟨a, []⟩
  bind x f := ⟨(f x.value).value, x.events ++ (f x.value).events⟩

def report (e : Event) : Logged Unit := ⟨(), [e]⟩

@[simp] theorem value_pure (a : α) : (pure a : Logged α).value = a := rfl

@[simp] theorem events_pure (a : α) : (pure a : Logged α).events = [] := rfl

@[simp] theorem value_bind (x : Logged α) (f : α → Logged β) :
    (x >>= f).value = (f x.value).value := rfl

@[simp] theorem events_bind (x : Logged α) (f : α → Logged β) :
    (x >>= f).events = x.events ++ (f x.value).events := rfl

@[simp] theorem value_map (f : α → β) (x : Logged α) : (f <$> x).value = f x.value := rfl

@[simp] theorem events_map (f : α → β) (x : Logged α) : (f <$> x).events = x.events := by
  simp [Functor.map]

theorem map_eq_bind (f : α → β) (x : Logged α) : f <$> x = x >>= (pure ∘ f) := rfl

instance : LawfulMonad Logged where
  map_const := rfl
  id_map x := by simp [map_eq_bind, bind, pure]
  seqLeft_eq _ _ := by simp [SeqLeft.seqLeft, Seq.seq, map_eq_bind, bind, pure]
  seqRight_eq _ _ := by simp [SeqRight.seqRight, Seq.seq, map_eq_bind, bind, pure]
  pure_seq _ _ := by simp [Seq.seq, map_eq_bind, bind, pure]
  bind_pure_comp _ _ := rfl
  bind_map _ _ := rfl
  pure_bind _ _ := by simp [bind, pure]
  bind_assoc _ _ _ := by simp [bind]

theorem value_foldlM (f : β → α → Logged β) (b : β) (as : List α) :
    (as.foldlM f b).value = as.foldl (fun b a => (f b a).value) b := by
  induction as generalizing b with
  | nil => rfl
  | cons a as ih => exact ih (f b a).value

theorem value_mapM (f : α → Logged β) (as : List α) :
    (as.mapM f).value = as.map fun a => (f a).value := by
  induction as with
  | nil => rfl
  | cons a as ih => rw [List.mapM_cons, value_bind, value_bind, ih, value_pure, List.map_cons]

end Logged

end Questionnaire

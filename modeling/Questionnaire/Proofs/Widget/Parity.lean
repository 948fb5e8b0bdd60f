import Questionnaire.Proofs.Widget.Confirmation

/-! # Answers by parity

What has been chosen of several options depends on how often each was clicked, and on nothing
else: an option belongs to the answer if that is odd, and the answer has each option once, where
it first stands among the options. So two histories that agree on these parities confirm the
same answer and make the same transition.
-/

namespace Questionnaire

namespace Answer

variable {options : List String} {option : String}

theorem eraseDups_concat (vs : List String) (v : String) :
    (vs ++ [v]).eraseDups = vs.eraseDups ++ if v ∈ vs then [] else [v] := by
  by_cases h : v ∈ vs <;> simp [List.eraseDups_append, List.eraseDups_cons, List.removeAll, h]

theorem pairwise_rank_eraseDups (options : List String) :
    options.eraseDups.Pairwise fun v w => rank options v < rank options w := by
  -- Seen from the end, an option that occurs before adds nothing and a new one ranks behind all.
  induction options using List.reverseRecOn with
  | nil => exact .nil
  | append_singleton vs v ih =>
    have hrank : ∀ w ∈ vs, rank (vs ++ [v]) w = rank vs w := fun w hw => by
      rw [rank, List.idxOf_append, if_pos hw, rank]
    rw [eraseDups_concat, List.pairwise_append]
    refine ⟨ih.imp_of_mem fun ha hb h => ?_, ?_, fun w hw v' hv' => ?_⟩
    · rwa [hrank _ (List.mem_eraseDups.mp ha), hrank _ (List.mem_eraseDups.mp hb)]
    · split
      · exact .nil
      · exact List.pairwise_singleton _ v
    · by_cases hv : v ∈ vs
      · simp [hv] at hv'
      · obtain rfl : v' = v := by simpa [hv] using hv'
        have hw := List.mem_eraseDups.mp hw
        rw [hrank w hw, rank, rank, List.idxOf_append, if_neg hv]
        have := List.idxOf_lt_length_iff.mpr hw
        omega

theorem insert_append {before behind : List String}
    (hbefore : ∀ v ∈ before, rank options v < rank options option)
    (hbehind : ∀ v ∈ behind, rank options option < rank options v) :
    insert options option ⟨before ++ behind⟩ = ⟨before ++ option :: behind⟩ := by
  have hb : ∀ v ∈ before, decide (rank options v ≤ rank options option) = true := fun v hv =>
    decide_eq_true (Nat.le_of_lt (hbefore v hv))
  simp only [insert, List.takeWhile_append_of_pos hb, List.dropWhile_append_of_pos hb]
  cases behind with
  | nil => simp
  | cons w ws =>
    have hw := hbehind w List.mem_cons_self
    simp [Nat.not_le_of_lt hw]

/-- The options that are chosen, each once and where it first stands among all. -/
def ofOptions (options : List String) (chosen : String → Bool) : Answer :=
  ⟨options.eraseDups.filter chosen⟩

theorem ofOptions_congr {p q : String → Bool} (h : ∀ v ∈ options, p v = q v) :
    ofOptions options p = ofOptions options q :=
  congrArg mk (List.filter_congr fun v hv => h v (List.mem_eraseDups.mp hv))

/-- Toggling an option changes whether it is chosen, and no other. -/
theorem toggle_ofOptions {p q : String → Bool} (h : option ∈ options) (hp : q option = !p option)
    (hq : ∀ v, v ≠ option → q v = p v) :
    (ofOptions options p).toggle options option = ofOptions options q := by
  -- The option cuts the options in two, and what is chosen of each part ranks as the part does.
  have hsorted := pairwise_rank_eraseDups options
  obtain ⟨before, behind, hsplit⟩ := List.append_of_mem (List.mem_eraseDups.mpr h)
  rw [hsplit, List.pairwise_append, List.pairwise_cons] at hsorted
  obtain ⟨-, ⟨hbehind, -⟩, hbefore⟩ := hsorted
  have hb : ∀ v ∈ before, rank options v < rank options option := fun v hv =>
    hbefore v hv option List.mem_cons_self
  have hnb : option ∉ before := fun ho => Nat.lt_irrefl _ (hb option ho)
  have hnh : option ∉ behind := fun ho => Nat.lt_irrefl _ (hbehind option ho)
  have hqb : before.filter q = before.filter p :=
    List.filter_congr fun v hv => hq v fun he => hnb (he ▸ hv)
  have hqh : behind.filter q = behind.filter p :=
    List.filter_congr fun v hv => hq v fun he => hnh (he ▸ hv)
  rw [ofOptions, ofOptions, hsplit]
  simp only [List.filter_append, List.filter_cons, hqb, hqh, hp]
  cases p option with
  | true =>
    have hmem : option ∉ before.filter p := fun ho => hnb (List.mem_filter.mp ho).1
    simp [toggle, contains, List.erase_append_right _ hmem]
  | false =>
    have hmem : ¬ contains ⟨before.filter p ++ behind.filter p⟩ option = true := by
      simp [contains, hnb, hnh]
    simp only [Bool.false_eq_true, Bool.not_false, if_true, if_false, toggle, hmem]
    exact insert_append (fun v hv => hb v (List.mem_filter.mp hv).1)
      fun v hv => hbehind v (List.mem_filter.mp hv).1

/-- The answer with the options that were clicked an odd number of times. -/
def odd (options : List String) (clicks : String → Nat) : Answer :=
  ofOptions options fun option => clicks option % 2 = 1

theorem contains_odd {clicks : String → Nat} (h : option ∈ options) :
    (odd options clicks).contains option = decide (clicks option % 2 = 1) := by
  simp [contains, odd, ofOptions, h]

theorem odd_congr {clicks clicks' : String → Nat}
    (h : ∀ v ∈ options, clicks v % 2 = clicks' v % 2) : odd options clicks = odd options clicks' :=
  ofOptions_congr fun v hv => by rw [h v hv]

end Answer

namespace Widget

variable {κ : Type}

namespace Use

def isClick (option : String) : Use κ → Bool
  | interact (.click clicked) => clicked = option
  | _ => false

def clicks (history : List (Use κ)) (option : String) : Nat := history.countP (isClick option)

def map {ι : Type} (f : κ → ι) : Use κ → Use ι
  | listen k => listen (f k)
  | interact i => interact i

theorem clicks_map {ι : Type} (f : κ → ι) (history : List (Use κ)) :
    clicks (history.map (map f)) = clicks history := by
  funext option
  rw [clicks, List.countP_map]
  exact List.countP_congr fun u _ => by
    rcases u with _ | _ | _ | _ | _ <;> rfl

theorem listeners_map {ι : Type} (f : κ → ι) (history : List (Use κ)) :
    listeners (history.map (map f)) = (listeners history).map f := by
  rw [listeners, List.filterMap_map, listeners, List.map_filterMap]
  congr 1
  funext u
  cases u <;> rfl

end Use

open Use (clicks)

theorem clicks_concat (history : List (Use κ)) (u : Use κ) (option : String) :
    clicks (history ++ [u]) option = clicks history option + if u.isClick option then 1 else 0 := by
  simp [clicks, List.countP_append, List.countP_cons]

/-- An interaction changes an answer by parity as it changes the parities. -/
theorem react_odd (options : List String) (confirmable : Bool) (history : List (Use κ))
    (i : Interaction) :
    ((FormatSpec.select true options).react confirmable i (.odd options (clicks history))).1 =
      .odd options (clicks (history ++ [.interact i])) := by
  cases i with
  | click option =>
    by_cases ho : option ∈ options
    · simp only [FormatSpec.react, ho, not_true, if_false, if_true]
      refine Answer.toggle_ofOptions ho ?_ fun v hv => ?_
      · simp only [clicks_concat, Use.isClick, decide_true, if_true]
        grind
      · simp [clicks_concat, Use.isClick, Ne.symm hv]
    · simp only [FormatSpec.react, ho, not_false_iff, if_true]
      refine Answer.odd_congr fun v hv => ?_
      have hne : option ≠ v := fun he => ho (he ▸ hv)
      simp [clicks_concat, Use.isClick, hne]
  | _ => exact Answer.odd_congr fun v _ => by simp [clicks_concat, Use.isClick]

theorem answer_run_select (options : List String) (templates : Templates)
    (history : List (Use κ)) :
    ((ofSpec (.select true options) templates : Logged (Widget κ)).value.run history).answer =
      .odd options (clicks history) := by
  induction history using List.reverseRecOn with
  | nil =>
    rw [run, List.foldl_nil, value_ofSpec]
    exact congrArg Answer.mk (List.filter_eq_nil_iff.mpr (by simp [clicks])).symm
  | append_singleton us u ih =>
    have h := used_run (.select true options) templates us
    rw [run_concat]
    cases u with
    | listen k =>
      exact ih.trans (Answer.odd_congr fun v _ => by simp [clicks_concat, Use.isClick])
    | interact i =>
      rw [use, h.value_interact, widget_reacted, ih]
      exact react_odd options _ us i

end Widget

namespace Question

open Widget (Use)
open Widget.Use (clicks)

/-- A question and its mailbox after a step. Listeners of a question are observers. -/
def use (s : Question × Mailbox) : Use String → Question × Mailbox
  | .listen name => (s.1.addListener name, s.2)
  | .interact i =>
    let o := (s.1.interact i s.2).value
    (o.question, o.mailbox)

def run (s : Question × Mailbox) (us : List (Use String)) : Question × Mailbox := us.foldl use s

theorem question_run (s : Question × Mailbox) (us : List (Use String)) :
    (run s us).1 = { s.1 with widget := s.1.widget.run (us.map (.map .observer)) } := by
  induction us generalizing s with
  | nil => rfl
  | cons u us ih =>
    rw [run, List.foldl_cons]
    refine (ih (use s u)).trans ?_
    cases u <;> rfl

theorem confirmed_react_select (options : List String) (confirmable : Bool) (i : Interaction)
    (a : Answer) :
    let r := (FormatSpec.select true options).react confirmable i a
    (if r.2 then some r.1 else none) = if i = .confirm ∧ confirmable then some a else none := by
  cases i with
  | click option => by_cases ho : option ∈ options <;> simp [FormatSpec.react, ho]
  | _ => simp [FormatSpec.react]

section

variable (id : String) (spec : QuestionSpec) {options : List String}
  (hf : spec.format = .select true options) (context : Context) (m : Mailbox)
  (history : List (Use String))

theorem widget_run : (run ((create id spec context).value, m) history).1.widget =
    (Widget.ofSpec spec.format context.templates).value.run
      (.listen .mailbox :: history.map (.map .observer)) := by
  rw [question_run]
  rfl

include hf

theorem answer_run : (run ((create id spec context).value, m) history).1.answer =
    .odd options (clicks history) := by
  rw [answer, widget_run, hf, Widget.answer_run_select, ← Use.clicks_map Listener.observer history]
  rfl

theorem value_interact_run (i : Interaction) :
    let q := (create id spec context).value
    let s := run (q, m) history
    let o := (s.1.interact i s.2).value
    o.confirmed = (if i = .confirm ∧ context.templates.confirm.isSome then
        some (.odd options (clicks history)) else none) ∧
      o.mailbox = o.confirmed.elim s.2 fun a => s.2.send (q.transition a) := by
  intro q s o
  have hwidget := widget_run id spec context m history
  have hanswer : s.1.answer = .odd options (clicks history) :=
    answer_run id spec hf context m history
  have hused := Widget.used_run spec.format context.templates
    (.listen .mailbox :: history.map (.map Listener.observer))
  have hlisteners : s.1.widget.listeners.toList =
      .mailbox :: (Use.listeners history).map .observer := by
    rw [← Use.listeners_map, hwidget]
    exact hused.listeners
  have htransition (a : Answer) : s.1.transition a = q.transition a := by
    simp only [s]
    rw [question_run]
    rfl
  let r := spec.format.react context.templates.confirm.isSome i s.1.answer
  have hr : (s.1.widget.interact i).value = s.1.widget.reacted r :=
    Widget.value_interact i (by rw [hwidget]; exact hused.kind)
  have ho := value_interact hlisteners hr s.2
  have hconfirmed : o.confirmed = if r.2 then some r.1 else none := congrArg Outcome.confirmed ho
  have hmailbox : o.mailbox = if r.2 then s.2.send (s.1.transition r.1) else s.2 :=
    congrArg Outcome.mailbox ho
  refine ⟨?_, ?_⟩
  · simp only [hconfirmed, r]
    rw [hf, hanswer, confirmed_react_select]
  · rw [hmailbox, hconfirmed, htransition]
    cases r.2 <;> rfl

end

/-- What has been chosen of several options is what was clicked an odd number of times, each
option once and where it first stands among them; no other click or interaction counts. So
after histories that agree on these parities, an interaction confirms the same answer, and the
same transition is sent for it, whoever observes the question. -/
theorem choice_by_parity (options : List String) :
    (∀ (κ : Type) (templates : Templates) (history : List (Use κ)),
      let w := (Widget.ofSpec (.select true options) templates).value.run history
      w.answer.values = options.eraseDups.filter (fun option => clicks history option % 2 = 1) ∧
        w.answer.values.Pairwise fun v v' => options.idxOf v < options.idxOf v') ∧
    ∀ (id title : String) (description : Option String) (next : Table String)
      (context : Context) (m m' : Mailbox) (history history' : List (Use String)) (i : Interaction),
      (∀ option ∈ options, clicks history option % 2 = clicks history' option % 2) →
      let q := (create id ⟨title, description, .select true options, next⟩ context).value
      let s := run (q, m) history
      let s' := run (q, m') history'
      let o := (s.1.interact i s.2).value
      let o' := (s'.1.interact i s'.2).value
      o.confirmed = (if i = .confirm ∧ context.templates.confirm.isSome then
          some (.odd options (clicks history)) else none) ∧
        o'.confirmed = o.confirmed ∧
        o.mailbox = o.confirmed.elim s.2 (fun a => s.2.send (q.transition a)) ∧
        o'.mailbox = o.confirmed.elim s'.2 (fun a => s'.2.send (q.transition a)) := by
  refine ⟨fun κ templates history => ?_, ?_⟩
  · intro w
    have hvalues : w.answer.values = (Answer.odd options (clicks history)).values :=
      congrArg Answer.values (Widget.answer_run_select options templates history)
    refine ⟨hvalues, ?_⟩
    rw [hvalues]
    exact (Answer.pairwise_rank_eraseDups options).filter _
  · intro id title description next context m m' history history' i h q s s' o o'
    let spec : QuestionSpec := ⟨title, description, .select true options, next⟩
    obtain ⟨hc, hm⟩ := value_interact_run id spec rfl context m history i
    obtain ⟨hc', hm'⟩ := value_interact_run id spec rfl context m' history' i
    have hconfirmed : o'.confirmed = o.confirmed := by
      rw [hc, hc', Answer.odd_congr h]
    exact ⟨hc, hconfirmed, hm, hconfirmed ▸ hm'⟩

/-- An option listed twice is one option, and a click on none of them does not count. -/
theorem choice_by_parity_reordered :
    let options := ["B", "A", "B"]
    let context : Context := ⟨.ofSources "" "" (some "") "" "", .empty, {}⟩
    let history : List (Use String) := [.interact (.click "A"), .interact (.click "B")]
    let history' : List (Use String) := [.interact (.click "B"), .interact .confirm, .listen "x",
      .interact (.click "C"), .interact (.click "B"), .interact (.click "A"), .interact (.click "B")]
    let q := (create "0" ⟨"T", none, .select true options, .ofList [("B", "1")]⟩ context).value
    let s := run (q, {}) history
    let s' := run (q, {}) history'
    (∀ option ∈ options, clicks history option % 2 = clicks history' option % 2) ∧
      (s.1.interact .confirm s.2).value.confirmed = some ⟨["B", "A"]⟩ ∧
      (s'.1.interact .confirm s'.2).value.confirmed = some ⟨["B", "A"]⟩ ∧
      (s'.1.interact .confirm s'.2).value.mailbox = s'.2.send (q.transition ⟨["B", "A"]⟩) := by
  intro options context history history' q s s'
  have h : ∀ option ∈ options, clicks history option % 2 = clicks history' option % 2 := by decide
  obtain ⟨hc, hc', -, hm'⟩ := (choice_by_parity options).2 "0" "T" none (.ofList [("B", "1")])
    context {} {} history history' .confirm h
  have hodd : (s.1.interact .confirm s.2).value.confirmed = some ⟨["B", "A"]⟩ :=
    hc.trans (by decide)
  refine ⟨h, hodd, hc'.trans hodd, hm'.trans ?_⟩
  exact congrArg (Option.elim · s'.2 fun a => s'.2.send (q.transition a)) hodd

end Question

end Questionnaire

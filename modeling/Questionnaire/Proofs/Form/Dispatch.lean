import Questionnaire.Proofs.Form.Run
import Questionnaire.Proofs.Graph.Interaction

/-! # Dispatching as interpreting

A form whose questions have the answers of a session and whose mailbox is empty goes
with each dispatch to the form of the next session. A run of dispatches is so the
run of the interpreter, and the transitions it gives are the same.
-/

namespace Questionnaire

def Resources.context (r : Resources) (config : Config) : Context :=
  (Context.create r.templates r.terminology config).value

namespace Form

variable {ρ : Type} [DisplayRegion ρ]

/-- The questions of a graph, with the answers of a session. -/
def Answers (r : Resources) (config : Config) (answers : String → Answer) (g : Graph) : Prop :=
  ∀ id, g.get? id = (r.outline.spec? id).map fun spec =>
    Question.answered id spec (r.context config) (answers id)

/-- A form in the state of a session. -/
structure Mirrors (r : Resources) (config : Config) (s : Session) (f : Form ρ) : Prop where
  phase : ∃ g, f.phase = .ready g s.shown ∧ Answers r config s.answers g
  mailbox : f.mailbox = {}

section Step

variable {r : Resources} {config : Config} {s : Session} {f : Form ρ}

theorem Answers.get?_of_none {answers : String → Answer} {g : Graph}
    (h : Answers r config answers g) {id : String} (hs : r.outline.spec? id = none) :
    g.get? id = none := by
  rw [h id, hs, Option.map_none]

theorem Answers.get?_of_some {answers : String → Answer} {g : Graph}
    (h : Answers r config answers g) {id : String} {spec : QuestionSpec}
    (hs : r.outline.spec? id = some spec) :
    g.get? id = some (Question.answered id spec (r.context config) (answers id)) := by
  rw [h id, hs, Option.map_some]

theorem Answers.put {answers : String → Answer} {g : Graph} (h : Answers r config answers g)
    {id : String} {spec : QuestionSpec} (hs : r.outline.spec? id = some spec) (a : Answer) :
    Answers r config (Function.update answers id a) { g with
      questions := g.questions.put id (Question.answered id spec (r.context config) a) } := by
  intro id'
  rw [Graph.get?, Table.get?_put]
  by_cases hid : id' = id
  · subst hid
    simp [hs]
  · rw [if_neg hid, Function.update_of_ne hid]
    exact h id'

theorem Mirrors.follow (h : Mirrors r config s f) {t : Transition}
    (hs : s.shown = some t.source) :
    Mirrors r config ⟨some ((r.chart config).follow t.source t.target), s.answers⟩
      (f.follow t).value := by
  obtain ⟨⟨g, hp, hg⟩, hm⟩ := h
  rw [hs] at hp
  have hc : f.currentId? = some t.source := by simp [currentId?, hp]
  rw [value_follow, if_pos hc]
  cases ht : t.target with
  | none => exact ⟨⟨g, hp, hg⟩, hm⟩
  | some next =>
    cases hn : r.outline.spec? next with
    | none =>
      have hf : (r.chart config).follow t.source (some next) = t.source := Chart.follow_of_none hn
      rw [Option.elim_some, value_advance_of_none hp (hg.get?_of_none hn), hf]
      exact ⟨⟨g, hp, hg⟩, hm⟩
    | some spec =>
      have hf : (r.chart config).follow t.source (some next) = next := Chart.follow_of_some hn
      rw [Option.elim_some, value_advance_of_some hp (hg.get?_of_some hn), hf]
      exact ⟨⟨g, rfl, hg⟩, hm⟩

omit [DisplayRegion ρ] in
theorem mirrors_delivered {id : String} {spec : QuestionSpec} {g : Graph} (i : Interaction)
    (hs : r.outline.spec? id = some spec) (hg : Answers r config s.answers g)
    (hm : f.mailbox = {}) :
    let re := spec.format.react (r.chart config).confirmable i (s.answers id)
    let t : Transition := ⟨id, re.1, spec.target? (r.chart config).separator re.1⟩
    let o := (g.interact id i f.mailbox).value
    Mirrors r config ⟨some id, Function.update s.answers id re.1⟩ (f.delivered o id) ∧
      o.mailbox.waiting = if re.2 then [t] else [] := by
  intro re t o
  obtain ⟨hquestion, hmailbox⟩ := Question.value_interact_answered id spec (r.context config)
    (s.answers id) i f.mailbox
  have ho : o = ⟨_, _, _⟩ := Graph.value_interact (hg.get?_of_some hs) i f.mailbox
  have hsent : o.mailbox = if re.2 then Mailbox.send t {} else {} := by
    rw [ho, ← hm]
    exact hmailbox
  refine ⟨⟨⟨_, rfl, ?_⟩, ?_⟩, ?_⟩
  · rw [ho]
    simp only [hquestion]
    exact hg.put hs re.1
  · simp only [delivered, hsent]
    split <;> rfl
  · rw [hsent]
    split <;> rfl

theorem mirrors_dispatch (h : Mirrors r config s f) (i : Interaction) :
    Mirrors r config ((r.chart config).step s i).1 (f.dispatch i).value.1 ∧
      (f.dispatch i).value.2 = .ok ((r.chart config).step s i).2 := by
  obtain ⟨⟨g, hp, hg⟩, hm⟩ := h
  cases hid : s.shown with
  | none =>
    rw [hid] at hp
    rw [dispatch_of_hidden i hp, Chart.step_of_none i hid]
    exact ⟨⟨⟨g, hid ▸ hp, hg⟩, hm⟩, rfl⟩
  | some id =>
    rw [hid] at hp
    cases hs : r.outline.spec? id with
    | none =>
      rw [dispatch_of_none i hp (hg.get?_of_none hs), Chart.step_of_unknown i hid hs]
      exact ⟨⟨⟨g, hid ▸ hp, hg⟩, hm⟩, rfl⟩
    | some spec =>
      obtain ⟨hd, hw⟩ := mirrors_delivered (f := f) i hs hg hm
      rw [value_dispatch i hp (hg.get?_of_some hs), Chart.step_of_some i hid hs, Chart.answer, hw]
      by_cases hc : (spec.format.react (r.chart config).confirmable i (s.answers id)).2 = true
      · simp only [if_pos hc, and_true]
        exact hd.follow (t := ⟨id, _, _⟩) rfl
      · simp only [if_neg hc, and_true]
        exact hd

theorem answers_built (r : Resources) (config : Config) :
    Answers r config (r.chart config).opening.answers (built r config).1 := by
  intro id
  rw [built, Graph.get?_build]
  simp only [Chart.opening, Question.answered_empty]
  rfl

theorem mirrors_opening (hc : f.config = config) (hm : f.mailbox.isOpen = true) :
    Mirrors r config (r.chart config).opening ((f.install r).value.start.value.1) := by
  have hp : (f.install r).value.phase = .ready (built r config).1 none := by
    rw [value_install, hc]
  have hb : (f.install r).value.mailbox = {} := by
    rw [value_install]
    simp [Mailbox.drain, hm]
  have hg := answers_built r config
  have hstart : (built r config).1.startQuestion? = (built r config).1.get? r.outline.start := rfl
  cases hs : r.outline.spec? r.outline.start with
  | none =>
    have ho : (r.chart config).opening.shown = none := by simp [Chart.opening, Resources.chart, hs]
    rw [value_start_of_none hp (hstart.trans (hg.get?_of_none hs))]
    exact ⟨⟨_, ho ▸ hp, hg⟩, hb⟩
  | some spec =>
    have ho : (r.chart config).opening.shown = some r.outline.start := by
      simp [Chart.opening, Resources.chart, hs]
    rw [value_start_of_some hp (hstart.trans (hg.get?_of_some hs))]
    exact ⟨⟨_, ho ▸ rfl, hg⟩, hb⟩

end Step

def replies (f : Form ρ) : List Interaction → List (Except FormError (List Transition))
  | [] => []
  | i :: is => (f.dispatch i).value.2 :: replies (f.perform (.dispatch i)) is

def answer? (f : Form ρ) (id : String) : Option Answer :=
  (f.graph?.bind (·.get? id)).map Question.answer

theorem mirrors_run {r : Resources} {config : Config} {s : Session} {f : Form ρ}
    (h : Mirrors r config s f) (is : List Interaction) :
    Mirrors r config ((r.chart config).run s is).1 (f.run (is.map .dispatch)) ∧
      f.replies is = ((r.chart config).run s is).2.map .ok := by
  induction is generalizing s f with
  | nil => exact ⟨h, rfl⟩
  | cons i is ih =>
    obtain ⟨hd, hr⟩ := mirrors_dispatch h i
    obtain ⟨hm, hrs⟩ := ih hd
    refine ⟨hm, ?_⟩
    rw [replies, hr]
    exact congrArg _ hrs

section

variable {r : Resources} {config : Config} {s : Session} {f : Form ρ}

omit [DisplayRegion ρ]

theorem Mirrors.currentId? (h : Mirrors r config s f) : f.currentId? = s.shown := by
  obtain ⟨⟨g, hp, -⟩, -⟩ := h
  simp [Form.currentId?, hp]

theorem Mirrors.answer? (h : Mirrors r config s f) (id : String) :
    f.answer? id = (r.outline.spec? id).map fun _ => s.answers id := by
  obtain ⟨⟨g, hp, hg⟩, -⟩ := h
  simp [Form.answer?, graph?, hp, hg id, Function.comp_def]

end

/-- One dispatch to the question that is shown. -/
theorem Mirrors.dispatch_shown {r : Resources} {config : Config} {s : Session} {f : Form ρ}
    (h : Mirrors r config s f) {id : String} {spec : QuestionSpec} (hid : s.shown = some id)
    (hs : r.outline.spec? id = some spec) (i : Interaction) :
    let c := r.chart config
    let re := spec.format.react c.confirmable i (s.answers id)
    let target := spec.target? c.separator re.1
    let next := f.perform (.dispatch i)
    (f.dispatch i).value.2 = .ok (if re.2 then [⟨id, re.1, target⟩] else []) ∧
      next.currentId? = some (if re.2 then c.follow id target else id) ∧
      ∀ id', next.answer? id' = if id' = id then some re.1 else f.answer? id' := by
  intro c re target next
  obtain ⟨hd, hr⟩ := mirrors_dispatch h i
  have hstep : c.step s i = (⟨some (if re.2 then c.follow id target else id),
      Function.update s.answers id re.1⟩, if re.2 then [⟨id, re.1, target⟩] else []) := by
    rw [Chart.step_of_some i hid hs, Chart.answer]
    change (if re.2 then _ else _) = _
    split <;> rfl
  change Mirrors r config (c.step s i).1 next at hd
  change _ = Except.ok (c.step s i).2 at hr
  rw [hstep] at hd hr
  refine ⟨hr, hd.currentId?, ?_⟩
  intro id'
  rw [hd.answer?, h.answer?]
  by_cases he : id' = id
  · subst he
    simp [hs]
  · simp [he]

/-- Dispatching interprets the outline: what is shown, all answers and the transitions are
those of the interpreter, and a dispatch changes no more than the answer of the question that
is shown and where a confirmed answer of it leads. -/
theorem dispatch_interprets_outline (config : Config) (region : ρ) (history : List Operation)
    (r : Resources) (is : List Interaction) :
    let c := r.chart config
    let f := (fresh config region).run (history ++ [.install r, .start])
    let g := f.run (is.map .dispatch)
    g.currentId? = (c.run c.opening is).1.shown ∧
      (∀ id, g.answer? id = (c.spec? id).map fun _ => (c.run c.opening is).1.answers id) ∧
      f.replies is = (c.run c.opening is).2.map .ok ∧
      (g.currentId? = none → ∀ i, g.dispatch i = pure (g, .ok [])) ∧
      ∀ id, g.currentId? = some id → ∃ spec a, c.spec? id = some spec ∧ g.answer? id = some a ∧
        ∀ i,
          let re := spec.format.react c.confirmable i a
          let target := spec.target? c.separator re.1
          let next := g.perform (.dispatch i)
          (g.dispatch i).value.2 = .ok (if re.2 then [⟨id, re.1, target⟩] else []) ∧
            next.currentId? = some (if re.2 then c.follow id target else id) ∧
            ∀ id', next.answer? id' = if id' = id then some re.1 else g.answer? id' := by
  intro c f g
  have hk := kept_run history (fresh config region)
  have hopen : Mirrors r config c.opening f := by
    simp only [f, run_append, run_cons, run_nil]
    exact mirrors_opening hk.config hk.isOpen
  obtain ⟨hm, hr⟩ := mirrors_run hopen is
  refine ⟨hm.currentId?, hm.answer?, hr, ?_, ?_⟩
  · intro hn i
    obtain ⟨⟨graph, hp, -⟩, -⟩ := id hm
    exact dispatch_of_hidden i (hp.trans (by rw [← hm.currentId?, hn]))
  · intro id hid
    have hid := hm.currentId?.symm.trans hid
    obtain ⟨spec, hs⟩ := (Chart.shows_opening c).run is id hid
    refine ⟨spec, (c.run c.opening is).1.answers id, hs, ?_, hm.dispatch_shown hid hs⟩
    rw [hm.answer?]
    exact congrArg _ hs

end Form

end Questionnaire

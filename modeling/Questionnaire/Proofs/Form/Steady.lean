import Questionnaire.Proofs.Form.Dispatch
import Questionnaire.Proofs.Graph.Dangling

/-! # Forms between operations

Between the operations of any run the mailbox of a form is empty, and a form that has a
graph is in the state of a session of the resources it was made of. What it shows is a
question of the graph.
-/

namespace Questionnaire.Form

variable {ρ : Type} [DisplayRegion ρ]

/-- The form is at rest: its last operation is done. -/
structure Steady (config : Config) (f : Form ρ) : Prop where
  config_eq : f.config = config
  mailbox : f.mailbox = {}
  session : ∀ g, f.graph? = some g → ∃ r s, Mirrors r config s f ∧ (r.chart config).Shows s

section Session

omit [DisplayRegion ρ]

variable {r : Resources} {config : Config} {s : Session} {f : Form ρ} {g : Graph}
  {answers : String → Answer}

theorem Answers.exists_spec (h : Answers r config answers g) {id : String} {q : Question}
    (hq : g.get? id = some q) : ∃ spec, r.outline.spec? id = some spec ∧
      Question.answered id spec (r.context config) (answers id) = q := by
  rw [h id] at hq
  exact Option.map_eq_some_iff.mp hq

theorem Answers.named (h : Answers r config answers g) : g.Named := by
  intro id q hq
  obtain ⟨spec, -, rfl⟩ := h.exists_spec hq
  rw [Question.answered_eq]

theorem graph?_of_phase {current : Option String} (h : f.phase = .ready g current) :
    f.graph? = some g := by
  simp [graph?, h]

theorem Mirrors.phase_of_graph? (h : Mirrors r config s f) (hg : f.graph? = some g) :
    f.phase = .ready g s.shown ∧ Answers r config s.answers g := by
  obtain ⟨g', hp, ha⟩ := h.phase
  obtain rfl : g' = g := Option.some.inj ((graph?_of_phase hp).symm.trans hg)
  exact ⟨hp, ha⟩

end Session

variable {config : Config} {f : Form ρ} {g : Graph} {current : Option String} {id : String}
  {q : Question} {r : Resources} {s : Session}

theorem Mirrors.finished (h : Mirrors r config s f) : Mirrors r config s f.finished :=
  ⟨h.phase, h.mailbox⟩

theorem Mirrors.showing (h : Mirrors r config s f) (hp : f.phase = .ready g current)
    (hq : g.get? id = some q) :
    Mirrors r config ⟨some id, s.answers⟩ (f.showing g q id) ∧
      (r.chart config).Shows ⟨some id, s.answers⟩ := by
  obtain ⟨-, ha⟩ := h.phase_of_graph? (graph?_of_phase hp)
  refine ⟨⟨⟨g, rfl, ha⟩, h.mailbox⟩, ?_⟩
  rintro id' ⟨⟩
  obtain ⟨spec, hspec, -⟩ := ha.exists_spec hq
  exact ⟨spec, hspec⟩

theorem Mirrors.start (h : Mirrors r config s f) (hp : f.phase = .ready g current)
    (hq : g.startQuestion? = some q) :
    Mirrors r config ⟨some g.start, s.answers⟩ f.start.value.1 ∧
      (r.chart config).Shows ⟨some g.start, s.answers⟩ := by
  have hid : q.id = g.start := (h.phase_of_graph? (graph?_of_phase hp)).2.named g.start q hq
  obtain ⟨hm, hs⟩ := h.showing hp hq
  rw [value_start_of_some hp hq, hid]
  exact ⟨hm.finished, hs⟩

omit [DisplayRegion ρ] in
theorem steady_fresh (config : Config) (region : ρ) : Steady config (fresh config region) where
  config_eq := rfl
  mailbox := rfl
  session := by rintro g ⟨⟩

theorem Steady.showing (h : Steady config f) (hp : f.phase = .ready g current)
    (hq : g.get? id = some q) : Steady config (f.showing g q id) where
  config_eq := h.config_eq
  mailbox := h.mailbox
  session _ _ := by
    obtain ⟨r, s, hm, -⟩ := h.session g (graph?_of_phase hp)
    exact ⟨r, _, hm.showing hp hq⟩

theorem Steady.install (h : Steady config f) (r : Resources) :
    Steady config (f.install r).value := by
  have hmailbox : (f.install r).value.mailbox = {} := by
    rw [value_install, h.mailbox]
    rfl
  refine ⟨(kept_install r f).config.trans h.config_eq, hmailbox, ?_⟩
  intro g hg
  refine ⟨r, ⟨none, (r.chart config).opening.answers⟩, ⟨⟨(built r config).1, ?_, ?_⟩, hmailbox⟩, ?_⟩
  · rw [value_install, h.config_eq]
  · exact answers_built r config
  · rintro id ⟨⟩

theorem Steady.load (h : Steady config f) (loader : String → Except String String) :
    Steady config (f.load loader).value.1 := by
  simp only [Form.load, takeResources]
  split
  · exact h.install _
  · refine ⟨h.config_eq, h.mailbox, ?_⟩
    rintro g ⟨⟩

theorem Steady.start (h : Steady config f) : Steady config f.start.value.1 := by
  have hk := kept_start f
  rcases start_cases f with ⟨-, hf⟩ | ⟨g, current, hp, ⟨-, hf⟩ | ⟨q, hq, hf⟩⟩
  · rw [hf]
    exact h
  · rw [hf]
    refine ⟨h.config_eq, h.mailbox, ?_⟩
    intro g hg
    obtain ⟨r, s, hm, hs⟩ := h.session g hg
    exact ⟨r, s, hm.finished, hs⟩
  · obtain ⟨r, s, hm, -⟩ := h.session g (graph?_of_phase hp)
    obtain ⟨hstart, hs⟩ := hm.start hp hq
    exact ⟨hk.config.trans h.config_eq, hstart.mailbox, fun _ _ => ⟨r, _, hstart, hs⟩⟩

theorem Steady.advance (h : Steady config f) (next : String) :
    Steady config (f.advance next).value.1 := by
  rcases advance_cases next f with hf | ⟨g, current, q, hp, hq, hf⟩ <;> rw [hf]
  · exact h
  · exact h.showing hp hq

theorem Steady.refresh (h : Steady config f) : Steady config f.refresh.value.1 := by
  cases hc : f.current? with
  | none =>
    rw [value_refresh_of_none hc]
    exact h
  | some q =>
    obtain ⟨g, id, hp, hq⟩ := phase_of_current? hc
    rw [value_refresh_of_some hp hq]
    exact h.showing hp hq

theorem Steady.dispatch (h : Steady config f) (i : Interaction) :
    Steady config (f.dispatch i).value.1 := by
  cases hg : f.graph? with
  | none =>
    rw [dispatch_of_loading i hg]
    exact h
  | some g =>
    obtain ⟨r, s, hm, hs⟩ := h.session g hg
    obtain ⟨hd, -⟩ := mirrors_dispatch hm i
    exact ⟨(kept_dispatch i f).config.trans h.config_eq, hd.mailbox,
      fun _ _ => ⟨r, _, hd, hs.step i⟩⟩

theorem Steady.perform (h : Steady config f) (op : Operation) : Steady config (f.perform op) := by
  cases op with
  | load loader => exact h.load loader
  | install r => exact h.install r
  | start => exact h.start
  | advance next => exact h.advance next
  | refresh => exact h.refresh
  | dispatch i => exact h.dispatch i

theorem Steady.run (h : Steady config f) (ops : List Operation) : Steady config (f.run ops) := by
  induction ops generalizing f with
  | nil => exact h
  | cons op ops ih => exact ih (h.perform op)

theorem steady_run (config : Config) (region : ρ) (ops : List Operation) :
    Steady config ((fresh config region).run ops) := (steady_fresh config region).run ops

end Questionnaire.Form

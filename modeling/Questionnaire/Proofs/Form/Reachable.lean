import Mathlib.Data.List.Induction
import Questionnaire.Proofs.Form.Display
import Questionnaire.Proofs.Form.Steady

/-! # The forms that operations lead to

After any operations the question that is shown is one of the graph, and no transition waits.
A form has no graph before the first loading and after a loading that failed. Until one
succeeds, every other operation is refused and leaves the region alone.
-/

namespace Questionnaire

namespace Operation

/-- The operation gives a form a graph. -/
def Builds (config : Config) : Operation → Prop
  | load loader => ∃ r, Id.run (Resources.load (m := Id) loader config) = .ok r
  | install _ => True
  | _ => False

def Fails (config : Config) : Operation → Prop
  | load loader => ∃ error, Id.run (Resources.load (m := Id) loader config) = .error error
  | _ => False

/-- The operation is for a form that has its graph. -/
def NeedsGraph : Operation → Prop
  | load _ => False
  | install _ => False
  | _ => True

end Operation

namespace Form

section Ready

variable {ρ : Type} [DisplayRegion ρ] (f : Form ρ)

theorem isReady_start : f.start.value.1.isReady = f.isReady := by
  rcases start_cases f with ⟨-, h⟩ | ⟨g, current, hp, ⟨-, h⟩ | ⟨q, -, h⟩⟩ <;> rw [h]
  · rfl
  · simp [isReady, graph?, hp, showing, finished]

theorem isReady_advance (next : String) : (f.advance next).value.1.isReady = f.isReady := by
  rcases advance_cases next f with h | ⟨g, current, q, hp, -, h⟩ <;> rw [h]
  simp [isReady, graph?, hp, showing]

theorem isReady_refresh : f.refresh.value.1.isReady = f.isReady := by
  cases hc : f.current? with
  | none => rw [value_refresh_of_none hc]
  | some q =>
    obtain ⟨g, id, hp, hq⟩ := phase_of_current? hc
    rw [value_refresh_of_some hp hq]
    simp [isReady, graph?, hp, showing]

theorem isReady_follow (t : Transition) : (f.follow t).value.isReady = f.isReady := by
  rw [value_follow]
  split
  · cases t.target with
    | none => rfl
    | some next => exact isReady_advance f next
  · rfl

theorem isReady_foldl_follow (ts : List Transition) :
    (ts.foldl (fun f t => (f.follow t).value) f).isReady = f.isReady := by
  induction ts generalizing f with
  | nil => rfl
  | cons t ts ih => rw [List.foldl_cons, ih, isReady_follow]

theorem isReady_dispatch (i : Interaction) : (f.dispatch i).value.1.isReady = f.isReady := by
  rcases dispatch_cases i f with ⟨-, outcome, h⟩ | ⟨g, id, q, hp, -, h⟩ <;> rw [h]
  · rfl
  · rw [isReady_foldl_follow]
    simp [isReady, graph?, hp, delivered]

variable {f} {op : Operation}

theorem isReady_of_builds (h : op.Builds f.config) : (f.perform op).isReady = true := by
  cases op with
  | load loader =>
    obtain ⟨r, hr⟩ := h
    simp [perform, load, hr, takeResources, value_install, isReady, graph?]
  | install r => simp [perform, value_install, isReady, graph?]
  | _ => cases h

theorem isReady_of_fails (h : op.Fails f.config) : (f.perform op).isReady = false := by
  cases op with
  | load loader =>
    obtain ⟨error, he⟩ := h
    simp [perform, load, he, takeResources, isReady, graph?]
  | _ => cases h

theorem isReady_perform (h : op.NeedsGraph) : (f.perform op).isReady = f.isReady := by
  cases op with
  | load loader => cases h
  | install r => cases h
  | start => exact isReady_start f
  | advance next => exact isReady_advance f next
  | refresh => exact isReady_refresh f
  | dispatch i => exact isReady_dispatch f i

omit [DisplayRegion ρ] in
theorem graph?_of_not_ready (h : f.isReady = false) : f.graph? = none :=
  Option.not_isSome_iff_eq_none.mp (Bool.eq_false_iff.mp h)

omit [DisplayRegion ρ] in
theorem current?_of_currentId? (h : f.currentId? = none) : f.current? = none := by
  cases hc : f.current? with
  | none => rfl
  | some q =>
    obtain ⟨g, id, hp, -⟩ := phase_of_current? hc
    simp [currentId?, hp] at h

omit [DisplayRegion ρ] in
theorem current?_of_not_ready (h : f.isReady = false) : f.current? = none := by
  cases hc : f.current? with
  | none => rfl
  | some q =>
    obtain ⟨g, id, hp, -⟩ := phase_of_current? hc
    simp [isReady, graph?, hp] at h

end Ready

/-- Nothing has been built in a history since its beginning or since a loading that failed. -/
inductive Idle (config : Config) : List Operation → Prop where
  | fresh : Idle config []
  | failed (history : List Operation) {op : Operation} : op.Fails config →
      Idle config (history ++ [op])
  | other {history : List Operation} {op : Operation} : Idle config history →
      ¬ op.Builds config → Idle config (history ++ [op])

theorem builds_or_fails_or_needsGraph (config : Config) (op : Operation) :
    op.Builds config ∨ op.Fails config ∨ op.NeedsGraph := by
  cases op with
  | load loader =>
    cases h : Id.run (Resources.load (m := Id) loader config) with
    | ok r => exact .inl ⟨r, h⟩
    | error error => exact .inr (.inl ⟨error, h⟩)
  | install r => exact .inl trivial
  | _ => exact .inr (.inr trivial)

theorem not_builds_of_needsGraph {config : Config} {op : Operation} (h : op.NeedsGraph) :
    ¬ op.Builds config := by
  intro hb
  cases op with
  | load loader => exact h
  | install r => exact h
  | _ => exact hb

section Run

variable {ρ : Type} [DisplayRegion ρ]

/-- A form has no graph exactly after the histories that have built none. -/
theorem isReady_run_eq_false_iff (config : Config) (region : ρ) (history : List Operation) :
    ((fresh config region).run history).isReady = false ↔ Idle config history := by
  have hconfig (history : List Operation) : ((fresh config region).run history).config = config :=
    (kept_run history (fresh config region)).config
  constructor
  · intro h
    induction history using List.reverseRecOn with
    | nil => exact .fresh
    | append_singleton history op ih =>
      rw [run_append, run_cons, run_nil] at h
      rcases builds_or_fails_or_needsGraph config op with hb | hf | hn
      · rw [isReady_of_builds (by rwa [hconfig])] at h
        cases h
      · exact .failed history hf
      · rw [isReady_perform hn] at h
        exact .other (ih h) (not_builds_of_needsGraph hn)
  · intro h
    induction h with
    | fresh => rfl
    | failed history hf =>
      rw [run_append]
      exact isReady_of_fails (by rwa [hconfig])
    | @other history op _ hb ih =>
      rw [run_append]
      rcases builds_or_fails_or_needsGraph config op with hb' | hf | hn
      · exact (hb hb').elim
      · exact isReady_of_fails (by rwa [hconfig])
      · exact (isReady_perform hn).trans ih

theorem perform_of_needsGraph {f : Form ρ} {op : Operation} (h : f.isReady = false)
    (hop : op.NeedsGraph) : f.perform op = f := by
  have hg := graph?_of_not_ready h
  cases op with
  | load loader => cases hop
  | install r => cases hop
  | start => rw [perform, start_of_loading hg]; rfl
  | advance next => rw [perform, value_advance_of_loading next hg]
  | refresh => rw [perform, value_refresh_of_none (current?_of_not_ready h)]
  | dispatch i => rw [perform, dispatch_of_loading i hg]; rfl

omit [DisplayRegion ρ] in
theorem Steady.exists_shown {config : Config} {f : Form ρ} {g : Graph} {id : String}
    (h : Steady config f) (hp : f.phase = .ready g (some id)) :
    ∃ r s q, Mirrors r config s f ∧ g.get? id = some q ∧ q.id = id ∧ f.current? = some q := by
  obtain ⟨r, s, hm, hs⟩ := h.session g (graph?_of_phase hp)
  obtain ⟨-, ha⟩ := hm.phase_of_graph? (graph?_of_phase hp)
  obtain ⟨spec, hspec⟩ := hs id (by rw [← hm.currentId?, currentId?, hp])
  have hq := ha.get?_of_some hspec
  exact ⟨r, s, _, hm, hq, ha.named id _ hq, by rw [current?, hp]; exact hq⟩

omit [DisplayRegion ρ] in
theorem Steady.isSome_current? {config : Config} {f : Form ρ} (h : Steady config f) :
    f.current?.isSome = f.currentId?.isSome := by
  cases hp : f.phase with
  | ready g current =>
    cases current with
    | none => simp [current?, currentId?, hp]
    | some id =>
      obtain ⟨r, s, q, -, -, -, hc⟩ := h.exists_shown hp
      simp [currentId?, hp, hc]
  | _ => simp [current?, currentId?, hp]

/-- The question that is shown sends the transitions that are followed, and it is still shown
when it comes to following them. -/
theorem Mirrors.follows_shown {r : Resources} {config : Config} {s : Session} {f : Form ρ}
    {g : Graph} {id : String} {q : Question} (h : Mirrors r config s f)
    (hp : f.phase = .ready g (some id)) (hq : g.get? id = some q) (i : Interaction)
    {pre post : List Transition} {t : Transition}
    (ht : (g.interact id i f.mailbox).value.mailbox.waiting = pre ++ t :: post) :
    (pre.foldl (fun f t => (f.follow t).value)
        (f.delivered (g.interact id i f.mailbox).value id)).currentId? = some t.source ∧
      t = q.transition t.answer := by
  obtain ⟨-, ha⟩ := h.phase_of_graph? (graph?_of_phase hp)
  obtain ⟨spec, hspec, rfl⟩ := ha.exists_spec hq
  obtain ⟨-, hw⟩ := mirrors_delivered (f := f) i hspec ha h.mailbox
  rw [hw] at ht
  split at ht
  · -- There is one transition, and nothing has been followed before it.
    rcases List.append_eq_singleton_iff.mp ht.symm with ⟨rfl, ht⟩ | ⟨-, ht⟩
    · obtain ⟨rfl, -⟩ := List.cons.inj ht
      refine ⟨rfl, ?_⟩
      rw [Question.transition, Question.nextFor_answered, Question.answered_eq]
      rfl
    · cases ht
  · simp at ht

/-- After any operations the question that is shown is in the graph, so that it is found when it
is to be drawn anew or to take an interaction. No transition waits, and all that a dispatch
follows comes from the question shown. There is no graph exactly if nothing was built since the
beginning or the last failure; then a form refuses every operation that does not load, and its
region is not called. -/
theorem run_keeps_shown_in_graph (config : Config) (region : ρ) (history : List Operation) :
    let f := (fresh config region).run history
    f.current?.isSome = f.currentId?.isSome ∧
      f.mailbox.waiting = [] ∧
      (∀ g id, f.phase = .ready g (some id) →
        ∃ q, g.get? id = some q ∧ q.id = id ∧ f.current? = some q ∧
          f.refresh.value = (f.showing g q id, true) ∧
          ∀ i,
            let o := (g.interact id i f.mailbox).value
            (f.dispatch i).value = (o.mailbox.waiting.foldl (fun f t => (f.follow t).value)
              (f.delivered o id), .ok o.mailbox.waiting) ∧
            ∀ pre t post, o.mailbox.waiting = pre ++ t :: post →
              (pre.foldl (fun f t => (f.follow t).value) (f.delivered o id)).currentId? =
                some t.source ∧ t = q.transition t.answer) ∧
      (f.isReady = false ↔ Idle config history) ∧
      (Idle config history →
        f.start.value = (f, .error .notInitialized) ∧
        (∀ i, (f.dispatch i).value = (f, .error .notInitialized)) ∧
        (∀ next, (f.advance next).value = (f, false)) ∧
        f.refresh.value = (f, false) ∧
        ∀ op : Operation, op.NeedsGraph →
          calls config (history ++ [op]) = calls config history) := by
  intro f
  have hsteady : Steady config f := steady_run config region history
  refine ⟨hsteady.isSome_current?, by rw [hsteady.mailbox], ?_,
    isReady_run_eq_false_iff config region history, ?_⟩
  · intro g id hp
    obtain ⟨r, s, q, hm, hq, hid, hc⟩ := hsteady.exists_shown hp
    refine ⟨q, hq, hid, hc, value_refresh_of_some hp hq, fun i => ⟨value_dispatch i hp hq, ?_⟩⟩
    intro pre t post ht
    exact hm.follows_shown hp hq i ht
  · intro hidle
    have hready := (isReady_run_eq_false_iff config region history).mpr hidle
    have hg := graph?_of_not_ready hready
    refine ⟨?_, ?_, ?_, ?_, ?_⟩
    · rw [start_of_loading hg]
      rfl
    · intro i
      rw [dispatch_of_loading i hg]
      rfl
    · exact fun next => value_advance_of_loading next hg
    · exact value_refresh_of_none (current?_of_not_ready hready)
    · intro op hop
      have hcalls := (isReady_run_eq_false_iff config ({} : Recorder) history).mpr hidle
      rw [calls, run_append, run_cons, run_nil, perform_of_needsGraph hcalls hop]
      rfl

/-- A started form sends and follows the answer of its question. When it is loaded again without
success it refuses everything. -/
theorem run_keeps_shown_in_graph_offline :
    let early : List Operation := [.install oneQuestion, .start]
    let late : List Operation := early ++ [.load fun _ => .error "offline"] ++ [.advance "0"]
    let f := (fresh {} ({} : Recorder)).run early
    let h := (fresh {} ({} : Recorder)).run late
    let g := (built oneQuestion {}).1
    let o := (g.interact "0" (.submit "x") f.mailbox).value
    let t : Transition := ⟨"0", .single "x", none⟩
    f.phase = .ready g (some "0") ∧ o.mailbox.waiting = [] ++ t :: [] ∧
      (∃ q, g.get? "0" = some q ∧ q.id = "0" ∧ f.current? = some q ∧
        f.refresh.value = (f.showing g q "0", true) ∧
        (f.delivered o "0").currentId? = some t.source ∧ t = q.transition t.answer) ∧
      Idle {} late ∧ h.isReady = false ∧ h.start.value = (h, .error .notInitialized) ∧
      Operation.NeedsGraph .start ∧ calls {} (late ++ [.start]) = calls {} late := by
  intro early late f h g o t
  have hphase : f.phase = .ready g (some "0") := rfl
  have hwaiting : o.mailbox.waiting = [] ++ t :: [] := rfl
  have hidle : Idle {} late := .other (.failed early ⟨_, rfl⟩) id
  obtain ⟨-, -, hshown, -, -⟩ := run_keeps_shown_in_graph {} ({} : Recorder) early
  obtain ⟨-, -, -, hready, hrefused⟩ := run_keeps_shown_in_graph {} ({} : Recorder) late
  obtain ⟨q, hq, hid, hc, hrefresh, hdispatch⟩ := hshown g "0" hphase
  obtain ⟨hcurrent, htransition⟩ := (hdispatch (.submit "x")).2 [] t [] hwaiting
  obtain ⟨hstart, -, -, -, hcalls⟩ := hrefused hidle
  exact ⟨hphase, hwaiting, ⟨q, hq, hid, hc, hrefresh, hcurrent, htransition⟩, hidle,
    hready.mpr hidle, hstart, trivial, hcalls .start trivial⟩

end Run

end Form

end Questionnaire

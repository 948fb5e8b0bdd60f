import Questionnaire.Form
import Questionnaire.Proofs.Region.Calls

/-! # Runs of a form

An operation is one request of a host, and a run is a list of them. A form
touches its region by calls only: a region that is given the calls a recorder has
kept of a run is in the state in which the run leaves that region.
-/

namespace Questionnaire

/-- What a host can ask of a form. -/
inductive Operation where
  | load (loader : String → Except String String)
  | install (resources : Resources)
  | start
  | advance (next : String)
  | refresh
  | dispatch (i : Interaction)

namespace Form

open RegionCall

section Operations

variable {ρ : Type} [DisplayRegion ρ]

def fresh (config : Config) (region : ρ) : Form ρ where
  config := config
  region := region

def perform (f : Form ρ) : Operation → Form ρ
  | .load loader => (f.load loader).value.1
  | .install resources => (f.install resources).value
  | .start => f.start.value.1
  | .advance next => (f.advance next).value.1
  | .refresh => f.refresh.value.1
  | .dispatch i => (f.dispatch i).value.1

def run (f : Form ρ) (ops : List Operation) : Form ρ := ops.foldl perform f

@[simp] theorem run_nil (f : Form ρ) : f.run [] = f := rfl

@[simp] theorem run_cons (f : Form ρ) (op : Operation) (ops : List Operation) :
    f.run (op :: ops) = (f.perform op).run ops := rfl

@[simp] theorem run_append (f : Form ρ) (ops ops' : List Operation) :
    f.run (ops ++ ops') = (f.run ops).run ops' := List.foldl_append

/-- The graph that is made of resources, and the errors of the entries left out. -/
def built (r : Resources) (config : Config) : Graph × List BuildError :=
  (Graph.build r.outline (Context.create r.templates r.terminology config).value).value

def showing (graph : Graph) (question : Question) (id : String) (f : Form ρ) : Form ρ :=
  { f with
    region := (DisplayRegion.attach question.render.value f.clear.region).value
    phase := .ready graph (some id) }

def finished (f : Form ρ) : Form ρ :=
  { f with region := DisplayRegion.loadingFinished f.region }

variable {f : Form ρ} {graph : Graph} {current : Option String} {question : Question}

theorem clear_eq (f : Form ρ) : f.clear = { f with region := f.clear.region } := by
  unfold clear
  split <;> rfl

theorem value_install (r : Resources) (f : Form ρ) :
    (f.install r).value = { f with
      region := f.clear.region
      phase := .ready (built r f.config).1 none
      mailbox := f.mailbox.drain.2
      buildErrors := (built r f.config).2 } := by
  rw [install, clear_eq]
  simp only [Logged.value_bind]
  split <;> rfl

theorem value_display (graph : Graph) (question : Question) (id : String) (f : Form ρ) :
    (f.display graph question id).value = f.showing graph question id := rfl

theorem start_of_loading (h : f.graph? = none) : f.start = pure (f, .error .notInitialized) := by
  unfold graph? at h
  unfold start
  split at h <;> simp_all

theorem value_start_of_none (h : f.phase = .ready graph current)
    (hq : graph.startQuestion? = none) :
    f.start.value = (f.finished, .error (.startNotFound graph.start)) := by
  simp [start, h, hq, finished]

theorem value_start_of_some (h : f.phase = .ready graph current)
    (hq : graph.startQuestion? = some question) :
    f.start.value = ((f.showing graph question question.id).finished, .ok question.id) := by
  simp [start, h, hq, finished, value_display]

theorem start_cases (f : Form ρ) :
    f.graph? = none ∧ f.start.value = (f, .error .notInitialized) ∨
    ∃ graph current, f.phase = .ready graph current ∧
      (graph.startQuestion? = none ∧
        f.start.value = (f.finished, .error (.startNotFound graph.start)) ∨
      ∃ question, graph.startQuestion? = some question ∧
        f.start.value = ((f.showing graph question question.id).finished, .ok question.id)) := by
  cases hp : f.phase with
  | ready graph current =>
    refine .inr ⟨graph, current, rfl, ?_⟩
    cases hq : graph.startQuestion? with
    | none => exact .inl ⟨rfl, value_start_of_none hp hq⟩
    | some question => exact .inr ⟨question, rfl, value_start_of_some hp hq⟩
  | _ =>
    have hg : f.graph? = none := by simp [graph?, hp]
    exact .inl ⟨hg, by rw [start_of_loading hg]; rfl⟩

theorem value_advance_of_loading (next : String) (h : f.graph? = none) :
    (f.advance next).value = (f, false) := by
  unfold graph? at h
  unfold advance
  split at h <;> simp_all

theorem value_advance_of_none {next : String} (h : f.phase = .ready graph current)
    (hq : graph.get? next = none) : (f.advance next).value = (f, false) := by
  simp [advance, h, hq]

theorem value_advance_of_some {next : String} (h : f.phase = .ready graph current)
    (hq : graph.get? next = some question) :
    (f.advance next).value = (f.showing graph question next, true) := by
  simp [advance, h, hq, value_display]

theorem advance_cases (next : String) (f : Form ρ) :
    (f.advance next).value = (f, false) ∨
    ∃ graph current question, f.phase = .ready graph current ∧ graph.get? next = some question ∧
      (f.advance next).value = (f.showing graph question next, true) := by
  cases hp : f.phase with
  | ready graph current =>
    cases hq : graph.get? next with
    | none => exact .inl (value_advance_of_none hp hq)
    | some question =>
      exact .inr ⟨graph, current, question, rfl, hq, value_advance_of_some hp hq⟩
  | _ => exact .inl (value_advance_of_loading next (by simp [graph?, hp]))

omit [DisplayRegion ρ] in
theorem phase_of_current? (h : f.current? = some question) :
    ∃ graph id, f.phase = .ready graph (some id) ∧ graph.get? id = some question := by
  unfold current? at h
  split at h
  · next graph id hp => exact ⟨graph, id, hp, h⟩
  · simp at h

theorem value_refresh_of_none (h : f.current? = none) : f.refresh.value = (f, false) := by
  unfold current? at h
  unfold refresh
  split at h <;> simp_all

theorem value_refresh_of_some {id : String} (h : f.phase = .ready graph (some id))
    (hq : graph.get? id = some question) :
    f.refresh.value = (f.showing graph question id, true) := by
  simp [refresh, h, hq, value_display]

theorem value_follow (f : Form ρ) (t : Transition) :
    (f.follow t).value = if f.currentId? = some t.source then
      t.target.elim f fun next => (f.advance next).value.1 else f := by
  unfold follow
  split
  · cases t.target <;> rfl
  · rfl

theorem dispatch_of_loading (i : Interaction) (h : f.graph? = none) :
    f.dispatch i = pure (f, .error .notInitialized) := by
  unfold graph? at h
  unfold dispatch
  split at h <;> simp_all

theorem dispatch_of_hidden (i : Interaction) (h : f.phase = .ready graph none) :
    f.dispatch i = pure (f, .ok []) := by
  simp [dispatch, h]

theorem dispatch_of_none (i : Interaction) {id : String} (h : f.phase = .ready graph (some id))
    (hq : graph.get? id = none) : f.dispatch i = pure (f, .ok []) := by
  have hc : graph.contains id = false := congrArg Option.isSome hq
  simp [dispatch, h, hc]

/-- The form when the question that is shown has taken an interaction, before its
transitions are followed. -/
def delivered (o : Graph.Outcome) (id : String) (f : Form ρ) : Form ρ :=
  { f with phase := .ready o.graph (some id), mailbox := o.mailbox.drain.2 }

theorem value_dispatch (i : Interaction) {id : String} (h : f.phase = .ready graph (some id))
    (hq : graph.get? id = some question) :
    (f.dispatch i).value =
      ((graph.interact id i f.mailbox).value.mailbox.waiting.foldl
        (fun f t => (f.follow t).value)
        (f.delivered (graph.interact id i f.mailbox).value id),
      .ok (graph.interact id i f.mailbox).value.mailbox.waiting) := by
  have hc : graph.contains id = true := congrArg Option.isSome hq
  simp [dispatch, h, hc, Mailbox.drain, Logged.value_foldlM, delivered]

theorem dispatch_cases (i : Interaction) (f : Form ρ) :
    f.current? = none ∧ (∃ outcome, f.dispatch i = pure (f, outcome)) ∨
    ∃ graph id question, f.phase = .ready graph (some id) ∧ graph.get? id = some question ∧
      (f.dispatch i).value =
        ((graph.interact id i f.mailbox).value.mailbox.waiting.foldl
          (fun f t => (f.follow t).value)
          (f.delivered (graph.interact id i f.mailbox).value id),
        .ok (graph.interact id i f.mailbox).value.mailbox.waiting) := by
  cases hp : f.phase with
  | ready graph current =>
    cases current with
    | none => exact .inl ⟨by simp [current?, hp], _, dispatch_of_hidden i hp⟩
    | some id =>
      cases hq : graph.get? id with
      | none => exact .inl ⟨by simp [current?, hp, hq], _, dispatch_of_none i hp hq⟩
      | some question => exact .inr ⟨graph, id, question, rfl, hq, value_dispatch i hp hq⟩
  | _ => exact .inl ⟨by simp [current?, hp], _, dispatch_of_loading i (by simp [graph?, hp])⟩

structure Kept (f g : Form ρ) : Prop where
  config : g.config = f.config
  isOpen : g.mailbox.isOpen = f.mailbox.isOpen

omit [DisplayRegion ρ] in
theorem Kept.trans {f g h : Form ρ} (hf : Kept f g) (hg : Kept g h) : Kept f h :=
  ⟨hg.config.trans hf.config, hg.isOpen.trans hf.isOpen⟩

theorem isOpen_foldl_deliver (q : Question) (calls : List (Listener × Answer)) (m : Mailbox) :
    (calls.foldl q.deliver m).isOpen = m.isOpen := by
  induction calls generalizing m with
  | nil => rfl
  | cons call calls ih =>
    rw [List.foldl_cons, ih, Question.deliver]
    split
    · rw [Mailbox.send]
      split <;> rfl
    · rfl

theorem isOpen_interact (graph : Graph) (id : String) (i : Interaction) (m : Mailbox) :
    (graph.interact id i m).value.mailbox.isOpen = m.isOpen := by
  rw [Graph.interact]
  split
  · rfl
  · exact isOpen_foldl_deliver _ _ m

theorem kept_install (r : Resources) (f : Form ρ) : Kept f (f.install r).value := by
  rw [value_install]
  exact ⟨rfl, rfl⟩

theorem kept_start (f : Form ρ) : Kept f f.start.value.1 := by
  rcases start_cases f with ⟨-, h⟩ | ⟨graph, current, -, ⟨-, h⟩ | ⟨question, -, h⟩⟩ <;>
    rw [h] <;> exact ⟨rfl, rfl⟩

theorem kept_advance (next : String) (f : Form ρ) : Kept f (f.advance next).value.1 := by
  rcases advance_cases next f with h | ⟨graph, current, question, -, -, h⟩ <;>
    rw [h] <;> exact ⟨rfl, rfl⟩

theorem kept_follow (t : Transition) (f : Form ρ) : Kept f (f.follow t).value := by
  rw [value_follow]
  split
  · cases t.target with
    | none => exact ⟨rfl, rfl⟩
    | some next => exact kept_advance next f
  · exact ⟨rfl, rfl⟩

theorem kept_foldl_follow (ts : List Transition) (f : Form ρ) :
    Kept f (ts.foldl (fun f t => (f.follow t).value) f) := by
  induction ts generalizing f with
  | nil => exact ⟨rfl, rfl⟩
  | cons t ts ih => exact (kept_follow t f).trans (ih _)

theorem kept_refresh (f : Form ρ) : Kept f f.refresh.value.1 := by
  cases hq : f.current? with
  | none =>
    rw [value_refresh_of_none hq]
    exact ⟨rfl, rfl⟩
  | some question =>
    obtain ⟨graph, id, hp, hq⟩ := phase_of_current? hq
    rw [value_refresh_of_some hp hq]
    exact ⟨rfl, rfl⟩

theorem kept_dispatch (i : Interaction) (f : Form ρ) : Kept f (f.dispatch i).value.1 := by
  rcases dispatch_cases i f with ⟨-, outcome, h⟩ | ⟨graph, id, question, -, -, h⟩
  · rw [h]
    exact ⟨rfl, rfl⟩
  · have hd : Kept f (f.delivered (graph.interact id i f.mailbox).value id) :=
      ⟨rfl, isOpen_interact graph id i f.mailbox⟩
    rw [h]
    exact hd.trans (kept_foldl_follow _ _)

theorem kept_perform (op : Operation) (f : Form ρ) : Kept f (f.perform op) := by
  cases op with
  | load loader =>
    simp only [perform, load, takeResources]
    split
    · exact kept_install _ f
    · exact ⟨rfl, rfl⟩
  | install r => exact kept_install r f
  | start => exact kept_start f
  | advance next => exact kept_advance next f
  | refresh => exact kept_refresh f
  | dispatch i => exact kept_dispatch i f

theorem kept_run (ops : List Operation) (f : Form ρ) : Kept f (f.run ops) := by
  induction ops generalizing f with
  | nil => exact ⟨rfl, rfl⟩
  | cons op ops ih => exact (kept_perform op f).trans (ih _)

end Operations

section Replay

variable {ρ : Type} [DisplayRegion ρ]

/-- The recorded form with a region in the recorder's place that has had the same calls. -/
def onto (r : ρ) (g : Form Recorder) : Form ρ :=
  ⟨g.config, replay g.region.calls r, g.phase, g.mailbox, g.buildErrors⟩

variable (r : ρ) (g : Form Recorder)

theorem clear_onto : (g.onto r).clear = g.clear.onto r := by
  cases hp : g.phase with
  | ready graph current => cases current <;> simp [clear, onto, hp, apply]
  | _ => simp [clear, onto, hp]

theorem install_onto (resources : Resources) :
    ((g.onto r).install resources).value = (g.install resources).value.onto r := by
  rw [value_install, value_install, clear_onto]
  rfl

theorem takeResources_onto (outcome : Except FormError Resources) :
    ((g.onto r).takeResources outcome).value.1 = (g.takeResources outcome).value.1.onto r := by
  cases outcome with
  | ok resources => exact install_onto r g resources
  | error error => simp [takeResources, onto, apply]

theorem showing_onto (graph : Graph) (question : Question) (id : String) :
    (g.onto r).showing graph question id = (g.showing graph question id).onto r := by
  rw [showing, clear_onto]
  simp [showing, onto, apply]

theorem finished_onto : (g.onto r).finished = g.finished.onto r := by
  simp [finished, onto, apply]

theorem start_onto : (g.onto r).start.value.1 = g.start.value.1.onto r := by
  cases hp : g.phase with
  | ready graph current =>
    have hr : (g.onto r).phase = .ready graph current := hp
    cases hq : graph.startQuestion? with
    | some question =>
      rw [value_start_of_some hr hq, value_start_of_some hp hq, showing_onto, finished_onto]
    | none => rw [value_start_of_none hr hq, value_start_of_none hp hq, finished_onto]
  | _ => rw [start_of_loading, start_of_loading] <;> simp [graph?, onto, hp]

theorem advance_onto (next : String) :
    ((g.onto r).advance next).value.1 = (g.advance next).value.1.onto r := by
  cases hp : g.phase with
  | ready graph current =>
    have hr : (g.onto r).phase = .ready graph current := hp
    cases hq : graph.get? next with
    | some question =>
      rw [value_advance_of_some hr hq, value_advance_of_some hp hq, showing_onto]
    | none => rw [value_advance_of_none hr hq, value_advance_of_none hp hq]
  | _ => rw [value_advance_of_loading, value_advance_of_loading] <;> simp [graph?, onto, hp]

theorem refresh_onto : (g.onto r).refresh.value.1 = g.refresh.value.1.onto r := by
  cases hq : g.current? with
  | none => rw [value_refresh_of_none hq, value_refresh_of_none (f := g.onto r) hq]
  | some question =>
    obtain ⟨graph, id, hp, hq⟩ := phase_of_current? hq
    rw [value_refresh_of_some hp hq, value_refresh_of_some (f := g.onto r) hp hq, showing_onto]

theorem follow_onto (t : Transition) :
    ((g.onto r).follow t).value = (g.follow t).value.onto r := by
  rw [value_follow, value_follow]
  change (if g.currentId? = some t.source then _ else _) = _
  split
  · cases t.target with
    | none => rfl
    | some next => exact advance_onto r g next
  · rfl

theorem foldl_follow_onto (ts : List Transition) :
    ts.foldl (fun f t => (f.follow t).value) (g.onto r) =
      (ts.foldl (fun f t => (f.follow t).value) g).onto r := by
  induction ts generalizing g with
  | nil => rfl
  | cons t ts ih => rw [List.foldl_cons, List.foldl_cons, follow_onto, ih]

theorem dispatch_onto (i : Interaction) :
    ((g.onto r).dispatch i).value.1 = (g.dispatch i).value.1.onto r := by
  cases hp : g.phase with
  | ready graph current =>
    have hr : (g.onto r).phase = .ready graph current := hp
    cases current with
    | none => rw [dispatch_of_hidden i hr, dispatch_of_hidden i hp]; rfl
    | some id =>
      cases hq : graph.get? id with
      | none => rw [dispatch_of_none i hr hq, dispatch_of_none i hp hq]; rfl
      | some question =>
        rw [value_dispatch i hr hq, value_dispatch i hp hq]
        exact foldl_follow_onto r (g.delivered (graph.interact id i g.mailbox).value id) _
  | _ => rw [dispatch_of_loading, dispatch_of_loading] <;> simp [graph?, onto, hp]

theorem perform_onto (op : Operation) : (g.onto r).perform op = (g.perform op).onto r := by
  cases op with
  | load loader => exact takeResources_onto r g _
  | install resources => exact install_onto r g resources
  | start => exact start_onto r g
  | advance next => exact advance_onto r g next
  | refresh => exact refresh_onto r g
  | dispatch i => exact dispatch_onto r g i

/-- The state of every region after a run is given by the calls that a recorder keeps. -/
theorem run_onto (ops : List Operation) : (g.onto r).run ops = (g.run ops).onto r := by
  induction ops generalizing g with
  | nil => rfl
  | cons op ops ih => rw [run_cons, run_cons, perform_onto, ih]

end Replay

end Form

end Questionnaire

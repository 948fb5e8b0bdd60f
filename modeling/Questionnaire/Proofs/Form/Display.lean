import Questionnaire.Proofs.Form.Run
import Questionnaire.Proofs.Region.Page

/-! # What a form displays

A form detaches the question that it shows before it attaches another one. The
calls of its region alternate in every run but those in which loading fails while
a question is shown and a question is shown again afterwards: the failure forgets
the question without detaching it.
-/

namespace Questionnaire.Form

open RegionCall

section Shows

variable {ρ : Type} [DisplayRegion ρ]

def shows (f : Form ρ) : Bool := f.currentId?.isSome

omit [DisplayRegion ρ] in
theorem shows_fresh (config : Config) (r : ρ) : (fresh config r).shows = false := rfl

/-- The operation is a loading that fails while a question is shown. -/
def Abandons (f : Form ρ) (op : Operation) : Prop :=
  f.shows ∧ ∃ loader error, op = .load loader ∧
    Id.run (Resources.load (m := Id) loader f.config) = .error error

def Reappears (f : Form ρ) (ops : List Operation) : Prop :=
  ∃ pre, pre <+: ops ∧ (f.run pre).shows

/-- Loading fails while a question is shown, and a question is shown again later. -/
def Overlaps (f : Form ρ) (ops : List Operation) : Prop :=
  ∃ pre op post, ops = pre ++ op :: post ∧ (f.run pre).Abandons op ∧
    ((f.run pre).perform op).Reappears post

variable {f : Form ρ}

theorem reappears_cons {op : Operation} {ops : List Operation} :
    f.Reappears (op :: ops) ↔ f.shows = true ∨ (f.perform op).Reappears ops := by
  constructor
  · rintro ⟨pre, hp, h⟩
    cases pre with
    | nil => exact .inl h
    | cons o pre =>
      obtain ⟨rfl, hpre⟩ := List.cons_prefix_cons.mp hp
      exact .inr ⟨pre, hpre, h⟩
  · rintro (h | ⟨pre, hp, h⟩)
    · exact ⟨[], List.nil_prefix, h⟩
    · exact ⟨op :: pre, List.cons_prefix_cons.mpr ⟨rfl, hp⟩, h⟩

theorem overlaps_cons {op : Operation} {ops : List Operation} :
    f.Overlaps (op :: ops) ↔
      f.Abandons op ∧ (f.perform op).Reappears ops ∨ (f.perform op).Overlaps ops := by
  constructor
  · rintro ⟨pre, o, post, hops, ha, hr⟩
    cases pre with
    | nil =>
      obtain ⟨rfl, rfl⟩ := List.cons.inj hops
      exact .inl ⟨ha, hr⟩
    | cons p pre =>
      obtain ⟨rfl, rfl⟩ := List.cons.inj hops
      exact .inr ⟨pre, o, post, rfl, ha, hr⟩
  · rintro (⟨ha, hr⟩ | ⟨pre, o, post, rfl, ha, hr⟩)
    · exact ⟨[], op, ops, rfl, ha, hr⟩
    · exact ⟨op :: pre, o, post, rfl, ha, hr⟩

theorem not_overlaps_nil : ¬ f.Overlaps [] := by
  rintro ⟨pre, op, post, hops, _⟩
  simp at hops

theorem reappears_of_overlaps {ops : List Operation} (h : f.Overlaps ops) : f.Reappears ops := by
  obtain ⟨pre, op, post, rfl, ha, _⟩ := h
  exact ⟨pre, List.prefix_append _ _, ha.1⟩

end Shows

variable {f g : Form Recorder}

/-- From one form to another the moves of the region take turns, and the forms know what is
shown. -/
def Orderly (f g : Form Recorder) : Prop :=
  ∃ ms, moves g.region.calls = moves f.region.calls ++ ms ∧ Turns f.shows ms g.shows

namespace Orderly

theorem refl (f : Form Recorder) : Orderly f f := ⟨[], by simp, .nil _⟩

theorem trans {h : Form Recorder} (hf : Orderly f g) (hg : Orderly g h) : Orderly f h := by
  obtain ⟨ms, hm, ht⟩ := hf
  obtain ⟨ns, hn, hu⟩ := hg
  exact ⟨ms ++ ns, by rw [hn, hm, List.append_assoc], ht.append hu⟩

end Orderly

theorem moves_clear (f : Form Recorder) : moves f.clear.region.calls =
    moves f.region.calls ++ if f.shows then [false] else [] := by
  cases hp : f.phase with
  | ready graph current =>
    cases current <;> simp [clear, shows, currentId?, hp, moves, shows?]
  | _ => simp [clear, shows, currentId?, hp]

theorem moves_showing (graph : Graph) (question : Question) (id : String) (f : Form Recorder) :
    moves (f.showing graph question id).region.calls =
      moves f.region.calls ++ (if f.shows then [false] else []) ++ [true] := by
  rw [← moves_clear, showing, Recorder.calls_attach, moves_append]
  rfl

theorem shows_showing (graph : Graph) (question : Question) (id : String) (f : Form Recorder) :
    (f.showing graph question id).shows = true := rfl

theorem moves_finished (f : Form Recorder) :
    moves f.finished.region.calls = moves f.region.calls := by
  simp [finished, moves, shows?]

theorem orderly_finished (f : Form Recorder) : Orderly f f.finished :=
  ⟨[], by rw [moves_finished, List.append_nil], .nil _⟩

theorem orderly_showing (graph : Graph) (question : Question) (id : String) (f : Form Recorder) :
    Orderly f (f.showing graph question id) := by
  refine ⟨_, by rw [moves_showing, List.append_assoc], ?_⟩
  rw [shows_showing]
  cases f.shows
  · exact .cons (by decide) (.nil _)
  · exact .cons (by decide) (.cons (by decide) (.nil _))

theorem moves_install (r : Resources) (f : Form Recorder) :
    moves (f.install r).value.region.calls =
      moves f.region.calls ++ if f.shows then [false] else [] := by
  rw [value_install, moves_clear]

theorem shows_install (r : Resources) (f : Form Recorder) :
    (f.install r).value.shows = false := by
  rw [value_install]
  rfl

theorem orderly_install (r : Resources) (f : Form Recorder) : Orderly f (f.install r).value := by
  refine ⟨_, moves_install r f, ?_⟩
  rw [shows_install]
  cases f.shows
  · exact .nil _
  · exact .cons (by decide) (.nil _)

theorem orderly_advance (next : String) (f : Form Recorder) :
    Orderly f (f.advance next).value.1 := by
  rcases advance_cases next f with h | ⟨graph, _, question, _, _, h⟩ <;> rw [h]
  · exact .refl f
  · exact orderly_showing graph question next f

theorem orderly_follow (f : Form Recorder) (t : Transition) : Orderly f (f.follow t).value := by
  rw [value_follow]
  split
  · cases t.target with
    | none => exact .refl f
    | some next => exact orderly_advance next f
  · exact .refl f

theorem orderly_foldl_follow (f : Form Recorder) (ts : List Transition) :
    Orderly f (ts.foldl (fun f t => (f.follow t).value) f) := by
  induction ts generalizing f with
  | nil => exact .refl f
  | cons t ts ih => exact (orderly_follow f t).trans (ih _)

theorem orderly_dispatch (i : Interaction) (f : Form Recorder) :
    Orderly f (f.dispatch i).value.1 := by
  rcases dispatch_cases i f with ⟨_, _, h⟩ | ⟨graph, id, question, hp, _, h⟩ <;> rw [h]
  · exact .refl f
  · have hs : f.shows = true := by simp [shows, currentId?, hp]
    have hd : Orderly f (f.delivered (graph.interact id i f.mailbox).value id) :=
      ⟨[], (List.append_nil _).symm, hs ▸ .nil true⟩
    exact hd.trans (orderly_foldl_follow _ _)

theorem orderly_start (f : Form Recorder) : Orderly f f.start.value.1 := by
  rcases start_cases f with ⟨_, h⟩ | ⟨graph, _, _, ⟨_, h⟩ | ⟨question, _, h⟩⟩ <;> rw [h]
  · exact .refl f
  · exact orderly_finished f
  · exact (orderly_showing graph question question.id f).trans (orderly_finished _)

theorem orderly_refresh (f : Form Recorder) : Orderly f f.refresh.value.1 := by
  cases hq : f.current? with
  | none => rw [value_refresh_of_none hq]; exact .refl f
  | some question =>
    obtain ⟨graph, id, hp, hq⟩ := phase_of_current? hq
    rw [value_refresh_of_some hp hq]
    exact orderly_showing graph question id f

theorem value_load_of_error {loader : String → Except String String} {error : FormError}
    (h : Id.run (Resources.load (m := Id) loader f.config) = .error error) :
    (f.load loader).value.1 =
      { f with region := DisplayRegion.loadingFailed error f.region, phase := .failed } := by
  simp [load, h, takeResources]

theorem value_load_of_ok {loader : String → Except String String} {resources : Resources}
    (h : Id.run (Resources.load (m := Id) loader f.config) = .ok resources) :
    (f.load loader).value.1 = (f.install resources).value := by
  simp [load, h, takeResources]

theorem orderly_perform {op : Operation} (h : ¬ f.Abandons op) : Orderly f (f.perform op) := by
  cases op with
  | load loader =>
    cases hl : Id.run (Resources.load (m := Id) loader f.config) with
    | ok resources =>
      rw [perform, value_load_of_ok hl]
      exact orderly_install resources f
    | error error =>
      have hs : f.shows = false := by
        by_contra hs
        exact h ⟨Bool.not_eq_false _ ▸ hs, loader, error, rfl, hl⟩
      rw [perform, value_load_of_error hl]
      exact ⟨[], by simp [moves, shows?], hs ▸ .nil false⟩
  | install resources => exact orderly_install resources f
  | start => exact orderly_start f
  | advance next => exact orderly_advance next f
  | refresh => exact orderly_refresh f
  | dispatch i => exact orderly_dispatch i f

/-- A failure while a question is shown leaves its nodes where they are. -/
theorem perform_of_abandons {op : Operation} (h : f.Abandons op) :
    (f.perform op).shows = false ∧ moves (f.perform op).region.calls = moves f.region.calls := by
  obtain ⟨_, loader, error, rfl, hl⟩ := h
  rw [perform, value_load_of_error hl]
  exact ⟨rfl, by simp [moves, shows?]⟩

theorem exists_moves_run (f : Form Recorder) (ops : List Operation) :
    ∃ ms, moves (f.run ops).region.calls = moves f.region.calls ++ ms := by
  induction ops generalizing f with
  | nil => exact ⟨[], (List.append_nil _).symm⟩
  | cons op ops ih =>
    obtain ⟨ms, hm⟩ : ∃ ms, moves (f.perform op).region.calls = moves f.region.calls ++ ms := by
      by_cases ha : f.Abandons op
      · exact ⟨[], by rw [(perform_of_abandons ha).2, List.append_nil]⟩
      · obtain ⟨ms, hm, _⟩ := orderly_perform ha
        exact ⟨ms, hm⟩
    obtain ⟨ns, hn⟩ := ih (f.perform op)
    exact ⟨ms ++ ns, by rw [run_cons, hn, hm, List.append_assoc]⟩

theorem current?_of_hidden (h : f.shows = false) : f.current? = none := by
  cases hq : f.current? with
  | none => rfl
  | some question =>
    obtain ⟨graph, id, hp, _⟩ := phase_of_current? hq
    simp [shows, currentId?, hp] at h

theorem perform_of_hidden (op : Operation) (h : f.shows = false) :
    (f.perform op).shows = false ∧ moves (f.perform op).region.calls = moves f.region.calls ∨
    (f.perform op).shows = true ∧
      moves (f.perform op).region.calls = moves f.region.calls ++ [true] := by
  have hshow (graph : Graph) (question : Question) (id : String) :
      moves (f.showing graph question id).region.calls = moves f.region.calls ++ [true] := by
    simp [moves_showing, h]
  have hinstall (resources : Resources) : moves (f.install resources).value.region.calls =
      moves f.region.calls := by simp [moves_install, h]
  cases op with
  | load loader =>
    cases hl : Id.run (Resources.load (m := Id) loader f.config) with
    | ok resources =>
      rw [perform, value_load_of_ok hl]
      exact .inl ⟨shows_install resources f, hinstall resources⟩
    | error error =>
      rw [perform, value_load_of_error hl]
      exact .inl ⟨rfl, by simp [moves, shows?]⟩
  | install resources => exact .inl ⟨shows_install resources f, hinstall resources⟩
  | start =>
    rw [perform]
    rcases start_cases f with ⟨_, hf⟩ | ⟨graph, _, _, ⟨_, hf⟩ | ⟨question, _, hf⟩⟩ <;> rw [hf]
    · exact .inl ⟨h, rfl⟩
    · exact .inl ⟨h, moves_finished f⟩
    · exact .inr ⟨rfl, (moves_finished _).trans (hshow graph question question.id)⟩
  | advance next =>
    rw [perform]
    rcases advance_cases next f with hf | ⟨graph, _, question, _, _, hf⟩ <;> rw [hf]
    · exact .inl ⟨h, rfl⟩
    · exact .inr ⟨rfl, hshow graph question next⟩
  | refresh =>
    rw [perform, value_refresh_of_none (current?_of_hidden h)]
    exact .inl ⟨h, rfl⟩
  | dispatch i =>
    rw [perform]
    rcases dispatch_cases i f with ⟨_, _, hf⟩ | ⟨_, _, question, hp, hq, _⟩
    · rw [hf]
      exact .inl ⟨h, rfl⟩
    · simp [shows, currentId?, hp] at h

theorem moves_run_of_hidden (ops : List Operation) (h : f.shows = false) :
    ¬ f.Reappears ops ∧ moves (f.run ops).region.calls = moves f.region.calls ∨
    f.Reappears ops ∧
      ∃ ms, moves (f.run ops).region.calls = moves f.region.calls ++ true :: ms := by
  induction ops generalizing f with
  | nil =>
    refine .inl ⟨?_, rfl⟩
    rintro ⟨pre, hp, hs⟩
    obtain rfl := List.prefix_nil.mp hp
    simp [h] at hs
  | cons op ops ih =>
    rw [reappears_cons, run_cons, h]
    rcases perform_of_hidden op h with ⟨hs, hm⟩ | ⟨hs, hm⟩
    · rw [← hm]
      simpa using ih hs
    · refine .inr ⟨.inr ⟨[], List.nil_prefix, hs⟩, ?_⟩
      obtain ⟨ms, hr⟩ := exists_moves_run (f.perform op) ops
      exact ⟨ms, by rw [hr, hm, List.append_assoc]; rfl⟩

/-- The calls of a run go on alternating unless the run overlaps. -/
theorem alternating_run_iff (ops : List Operation)
    (h : Turns false (moves f.region.calls) f.shows) :
    Alternating (f.run ops).region.calls ↔ ¬ f.Overlaps ops := by
  induction ops generalizing f with
  | nil =>
    exact iff_of_true (alternating_iff.mpr ⟨_, h⟩) not_overlaps_nil
  | cons op ops ih =>
    rw [overlaps_cons, run_cons]
    by_cases ha : f.Abandons op
    · obtain ⟨hs, hm⟩ := perform_of_abandons ha
      rw [ha.1] at h
      rcases moves_run_of_hidden ops hs with ⟨hr, hn⟩ | ⟨hr, ms, hn⟩
      · refine iff_of_true (alternating_iff.mpr ⟨true, by rw [hn, hm]; exact h⟩) ?_
        rintro (⟨_, hr'⟩ | ho)
        · exact hr hr'
        · exact hr (reappears_of_overlaps ho)
      · refine iff_of_false ?_ (not_not_intro (.inl ⟨ha, hr⟩))
        intro hc
        -- The last move has attached, and so does the next one.
        obtain ⟨t, ht⟩ := alternating_iff.mp hc
        rw [hn, hm] at ht
        obtain ⟨u, hu, hv⟩ := ht.of_append
        cases hv with | cons hne _ => exact hne (hu.unique h)
    · obtain ⟨ms, hm, ht⟩ := orderly_perform ha
      rw [ih (hm ▸ h.append ht)]
      simp [ha]

theorem overlaps_onto {ρ : Type} [DisplayRegion ρ] (r : ρ) (ops : List Operation) :
    (f.onto r).Overlaps ops ↔ f.Overlaps ops := by
  simp only [Overlaps, Abandons, Reappears, run_onto, perform_onto]
  rfl

def calls (config : Config) (ops : List Operation) : List RegionCall :=
  ((fresh config ({} : Recorder)).run ops).region.calls

theorem fresh_onto {ρ : Type} [DisplayRegion ρ] (config : Config) (r : ρ) (ops : List Operation) :
    (fresh config r).run ops = ((fresh config ({} : Recorder)).run ops).onto r :=
  run_onto r (fresh config {}) ops

theorem alternating_calls_iff {ρ : Type} [DisplayRegion ρ] (config : Config) (r : ρ)
    (ops : List Operation) :
    Alternating (calls config ops) ↔ ¬ (fresh config r).Overlaps ops := by
  have h := alternating_run_iff (f := fresh config {}) ops (.nil false)
  rw [calls, h]
  exact not_congr (overlaps_onto r ops).symm

theorem exists_base_of_start {config : Config} {r : PageRegion} {ops : List Operation} {id : String}
    (hr : r.range = none) (ha : Alternating (calls config (ops ++ [.start])))
    (hs : ((fresh config r).run ops).start.value.2 = .ok id) :
    ∃ (base : PageRegion) (question : Question),
      base.range = none ∧ Markup.Remnant base.page r.page ∧
      ((fresh config r).run ops).graph?.bind Graph.startQuestion? = some question ∧
      question.id = id ∧ ((fresh config r).run (ops ++ [.start])).region =
        (base.attach question.render.value).value.loadingFinished := by
  let g := (fresh config ({} : Recorder)).run ops
  have hf : (fresh config r).run ops = g.onto r := fresh_onto config r ops
  rcases start_cases ((fresh config r).run ops) with
    ⟨_, h⟩ | ⟨graph, current, hp, ⟨_, h⟩ | ⟨question, hq, h⟩⟩ <;> rw [h] at hs
  · nomatch hs
  · nomatch hs
  · obtain rfl := Except.ok.inj hs
    have hg : g.phase = .ready graph current := by
      rw [hf] at hp
      exact hp
    have hm : moves (calls config (ops ++ [.start])) = moves g.clear.region.calls ++ [true] := by
      rw [calls, run_append, run_cons, run_nil, perform, value_start_of_some hg hq, moves_finished,
        showing, Recorder.calls_attach, moves_append]
      rfl
    obtain ⟨t, ht⟩ := alternating_iff.mp ha
    rw [hm] at ht
    obtain ⟨u, hu, hv⟩ := ht.of_append
    obtain _ | ⟨hne, _⟩ := hv
    obtain rfl : u = false := by simpa using hne
    have hk := (PageRegion.keeps_of_range hr).replay hu
    have hc : ((fresh config r).run ops).clear.region = replay g.clear.region.calls r := by
      rw [hf, clear_onto]
      rfl
    refine ⟨((fresh config r).run ops).clear.region, question, ?_, ?_, ?_, rfl, ?_⟩
    · rw [hc]
      exact hk.range rfl
    · rw [hc, ← PageRegion.detach_of_none (hk.range rfl)]
      exact hk.remnant
    · simp [graph?, hp, hq]
    · rw [run_append, run_cons, run_nil, perform, h]
      rfl

def oneQuestion : Resources where
  templates := .ofSources "<p>{title}</p><div id=options></div>" "" none "<input>" ""
  outline := { start := "0", questions := .ofList [("0", .object
    [("format", .object [("type", .string "text")]), ("next", .object []),
      ("title", .string "T")])] }
  terminology := .empty

/-- The calls of a form's region alternate exactly if the run does not overlap. A region then has
the nodes of at most one question, and a page on which a form has started shows, apart from what
is left of its first content, the nodes of the start question only. -/
theorem display_alternates_iff_not_overlaps (config : Config) (ops : List Operation) :
    (∀ {ρ : Type} [DisplayRegion ρ] (r : ρ),
      ((fresh config r).run ops).region = replay (calls config ops) r ∧
      (Alternating (calls config ops) ↔ ¬ (fresh config r).Overlaps ops) ∧
      (¬ (fresh config r).Overlaps ops →
        ∀ pre, pre <+: calls config ops → (held pre).length ≤ 1)) ∧
    ∀ (page : List Markup.Node) (pageConfig : Config) (id : String),
      ¬ (fresh config (PageRegion.ofPage page pageConfig)).Overlaps (ops ++ [.start]) →
      ((fresh config (PageRegion.ofPage page pageConfig)).run ops).start.value.2 = .ok id →
      ∃ (base : PageRegion) (question : Question),
        base.range = none ∧ Markup.Remnant base.page page ∧
        ((fresh config (PageRegion.ofPage page pageConfig)).run ops).graph?.bind
          Graph.startQuestion? = some question ∧ question.id = id ∧
        ((fresh config (PageRegion.ofPage page pageConfig)).run (ops ++ [.start])).region =
          (base.attach question.render.value).value.loadingFinished := by
  constructor
  · intro ρ _ r
    refine ⟨?_, alternating_calls_iff config r ops, ?_⟩
    · rw [fresh_onto]
      rfl
    · intro h pre hp
      exact length_held_le ((alternating_calls_iff config r ops).mpr h) hp
  · intro page pageConfig id h hs
    exact exists_base_of_start rfl ((alternating_calls_iff config _ _).mpr h) hs

theorem display_after_early_failure :
    let ops : List Operation :=
      [.load fun _ => .error "offline", .install oneQuestion, .start, .install oneQuestion]
    let page : List Markup.Node := [.element ⟨"main", [("id", some "questions")]⟩ []]
    let f := (fresh {} (PageRegion.ofPage page {})).run ops
    ¬ (fresh {} ({} : Recorder)).Overlaps ops ∧
    (∀ pre, pre <+: calls {} ops → (held pre).length ≤ 1) ∧
    ¬ (fresh {} (PageRegion.ofPage page {})).Overlaps (ops ++ [.start]) ∧
    f.start.value.2 = .ok "0" ∧
    ∃ (base : PageRegion) (question : Question),
      base.range = none ∧ Markup.Remnant base.page page ∧
      f.graph?.bind Graph.startQuestion? = some question ∧ question.id = "0" ∧
      ((fresh {} (PageRegion.ofPage page {})).run (ops ++ [.start])).region =
        (base.attach question.render.value).value.loadingFinished := by
  intro ops page f
  have h : ¬ (fresh {} ({} : Recorder)).Overlaps ops := by
    simp [ops, overlaps_cons, not_overlaps_nil, Abandons, shows_fresh]
  have hp : ¬ (fresh {} (PageRegion.ofPage page {})).Overlaps (ops ++ [.start]) := by
    simp [ops, overlaps_cons, not_overlaps_nil, Abandons, shows_fresh]
  have hs : f.start.value.2 = .ok "0" := rfl
  exact ⟨h, ((display_alternates_iff_not_overlaps {} ops).1 ({} : Recorder)).2.2 h, hp, hs,
    (display_alternates_iff_not_overlaps {} ops).2 page {} "0" hp hs⟩

/-- After a failure while a question is shown, the next question is attached beside it. -/
theorem not_alternating_after_late_failure :
    let ops : List Operation :=
      [.install oneQuestion, .start, .load fun _ => .error "offline", .install oneQuestion, .start]
    ¬ Alternating (calls {} ops) ∧ (held (calls {} ops)).length = 2 := by
  intro ops
  refine ⟨?_, rfl⟩
  rw [alternating_calls_iff {} ({} : Recorder)]
  refine not_not_intro ⟨[.install oneQuestion, .start], _, [.install oneQuestion, .start], rfl,
    ⟨rfl, _, _, rfl, rfl⟩, [.install oneQuestion, .start], List.prefix_rfl, rfl⟩

end Questionnaire.Form

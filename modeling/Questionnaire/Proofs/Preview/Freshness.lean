import Questionnaire.Proofs.Form.Reachable
import Questionnaire.Proofs.Preview.Lines
import Questionnaire.Proofs.Region.Content

/-! # What a preview shows

Each line of a preview is answered, and the first one that ends it is the last. After an
interaction the page has the question that is shown as it would be drawn now: a move draws
the question it leads to, and without a move the preview draws the same question anew.
-/

namespace Questionnaire

namespace Form

/-- The question that is shown stands on the page as it is drawn now. -/
def Fresh (f : Form PageRegion) : Prop :=
  ∀ q, f.current? = some q → f.region.element?.isSome → f.region.attached = q.render.value

/-- A question is shown: the one of the id, or else one that is fresh on the page. -/
def KeepsOrFresh (id : String) (f : Form PageRegion) : Prop :=
  f.currentId?.isSome ∧ (f.currentId? = some id ∨ f.Fresh)

variable {f : Form PageRegion} {id : String}

theorem range_clear (h : f.currentId?.isSome) : f.clear.region.range = none := by
  obtain ⟨id, hid⟩ := Option.isSome_iff_exists.mp h
  unfold currentId? at hid
  split at hid
  · next g current hp =>
    obtain rfl : current = some id := hid
    simp only [clear, hp]
    exact f.region.range_detach
  · cases hid

theorem fresh_showing {g : Graph} {q : Question} (h : f.currentId?.isSome)
    (hq : g.get? id = some q) : (f.showing g q id).Fresh := by
  intro q' hc he
  obtain rfl : q = q' := Option.some.inj (hq.symm.trans hc)
  change (f.clear.region.attach q.render.value).value.attached = _
  change (f.clear.region.attach q.render.value).value.element?.isSome at he
  cases hr : f.clear.region.element? with
  | none =>
    rw [PageRegion.attach_of_none hr, hr] at he
    cases he
  | some e => exact PageRegion.attached_attach hr (range_clear h) _

theorem KeepsOrFresh.follow (h : f.KeepsOrFresh id) (t : Transition) :
    (f.follow t).value.KeepsOrFresh id := by
  rw [value_follow]
  split
  · cases t.target with
    | none => exact h
    | some next =>
      rw [Option.elim_some]
      rcases advance_cases next f with ha | ⟨g, current, q, -, hq, ha⟩ <;> rw [ha]
      · exact h
      · exact ⟨rfl, .inr (fresh_showing h.1 hq)⟩
  · exact h

theorem KeepsOrFresh.foldl_follow (h : f.KeepsOrFresh id) (ts : List Transition) :
    (ts.foldl (fun f t => (f.follow t).value) f).KeepsOrFresh id := by
  induction ts generalizing f with
  | nil => exact h
  | cons t ts ih => exact ih (h.follow t)

theorem keepsOrFresh_dispatch (h : f.currentId? = some id) (i : Interaction) :
    (f.dispatch i).value.1.KeepsOrFresh id := by
  rcases dispatch_cases i f with ⟨-, outcome, hd⟩ | ⟨g, id', q, hp, -, hd⟩ <;> rw [hd]
  · exact ⟨by rw [Logged.value_pure, h]; rfl, .inl h⟩
  · obtain rfl : id' = id := by simpa [currentId?, hp] using h
    exact KeepsOrFresh.foldl_follow ⟨rfl, .inl rfl⟩ _

theorem exists_dispatch_ok (h : f.isReady = true) (i : Interaction) :
    ∃ ts, (f.dispatch i).value.2 = .ok ts := by
  rcases dispatch_cases i f with ⟨hc, -⟩ | ⟨g, id, q, hp, hq, hd⟩
  · cases hp : f.phase with
    | ready g current =>
      cases current with
      | none => exact ⟨[], by rw [dispatch_of_hidden i hp]; rfl⟩
      | some id =>
        have hq : g.get? id = none := by simpa [current?, hp] using hc
        exact ⟨[], by rw [dispatch_of_none i hp hq]; rfl⟩
    | _ => simp [isReady, graph?, hp] at h
  · exact ⟨_, by rw [hd]⟩

end Form

namespace Preview

open Form (Steady Fresh)

/-- A form between two lines of a preview. -/
structure Ready (config : Config) (form : Form PageRegion) : Prop where
  steady : Steady config form
  isReady : form.isReady = true

variable {config : Config} {form : Form PageRegion}

section Interaction

variable (i : Interaction)

theorem value_interact (i : Interaction) (form : Form PageRegion) : (interact i form).value =
    (if (form.dispatch i).value.1.currentId? = form.currentId?
      then (form.dispatch i).value.1.refresh.value.1 else (form.dispatch i).value.1,
    (form.dispatch i).value.2) := by
  simp only [interact, Logged.value_bind]
  split <;> rfl

theorem ready_interact (h : Ready config form) :
    Ready config (interact i form).value.1 := by
  rw [value_interact]
  have hd : Ready config (form.dispatch i).value.1 :=
    ⟨h.steady.dispatch i, (Form.isReady_dispatch form i).trans h.isReady⟩
  dsimp only
  split
  · exact ⟨hd.steady.refresh, (Form.isReady_refresh _).trans hd.isReady⟩
  · exact hd

theorem interact_of_hidden (h : form.currentId? = none) : (interact i form).value.1 = form := by
  have hd : (form.dispatch i).value.1 = form := by
    rcases form.dispatch_cases i with ⟨-, outcome, hd⟩ | ⟨g, id, q, hp, -, -⟩
    · rw [hd]
      rfl
    · simp [Form.currentId?, hp] at h
  rw [value_interact]
  simp only [hd, if_true, Form.value_refresh_of_none (Form.current?_of_currentId? h)]

/-- The question that is shown after an interaction is fresh. -/
theorem fresh_interact (h : form.currentId?.isSome) :
    (interact i form).value.1.currentId?.isSome ∧ (interact i form).value.1.Fresh := by
  obtain ⟨id, hid⟩ := Option.isSome_iff_exists.mp h
  obtain ⟨hsome, hmoved⟩ := Form.keepsOrFresh_dispatch hid i
  rw [value_interact]
  dsimp only
  split
  · -- The same question is shown, and it is drawn anew.
    cases hc : (form.dispatch i).value.1.current? with
    | none =>
      rw [Form.value_refresh_of_none hc]
      exact ⟨hsome, fun q hq => by rw [hc] at hq; cases hq⟩
    | some q =>
      obtain ⟨g, id', hp, hq⟩ := Form.phase_of_current? hc
      rw [Form.value_refresh_of_some hp hq]
      exact ⟨rfl, Form.fresh_showing hsome hq⟩
  · next hne => exact ⟨hsome, hmoved.resolve_left fun he => hne (he.trans hid.symm)⟩

end Interaction

section Lines

variable {line : String}

theorem ofLine?_of_blank (h : (Text.trim line.toList).isEmpty) : Command.ofLine? line = none := by
  have hs : Command.split line = ("", "") := by
    rw [Command.split, List.isEmpty_iff.mp h]
    rfl
  rw [Command.ofLine?, hs]
  rfl

theorem respond_of_interact {i : Interaction} (h : Ready config form)
    (hl : Command.ofLine? line = some (.interact i)) :
    respond line form = .ok ((fun r => { form := r.1, output := [.page r.1.region.html] }) <$>
      interact i form) := by
  have hblank : (Text.trim line.toList).isEmpty = false := by
    by_contra hb
    rw [ofLine?_of_blank (by simpa using hb)] at hl
    cases hl
  obtain ⟨ts, hts⟩ := Form.exists_dispatch_ok h.isReady i
  have hr : (interact i form).value.2 = .ok ts := by rw [value_interact, hts]
  simp only [respond, hblank, hl, hr]
  rfl

/-- Every line is answered, and the preview goes on unless it is told to end. -/
theorem Ready.exists_respond (h : Ready config form) (line : String) :
    ∃ response, respond line form = .ok response ∧ Ready config response.value.form ∧
      (response.value.continues = false ↔ Command.ofLine? line = some .quit) := by
  cases hl : Command.ofLine? line with
  | none =>
    by_cases hb : (Text.trim line.toList).isEmpty
    · exact ⟨_, if_pos hb, h, by simp⟩
    · exact ⟨pure { form, output := [.help] }, by rw [respond, if_neg hb, hl], h, by simp⟩
  | some command =>
    have hb : ¬ (Text.trim line.toList).isEmpty := by
      intro hb
      rw [ofLine?_of_blank hb] at hl
      cases hl
    cases command with
    | interact i => exact ⟨_, respond_of_interact h hl, ready_interact i h, by simp⟩
    | print =>
      exact ⟨pure { form, output := [.page form.region.html] },
        by rw [respond, if_neg hb, hl], h, by simp⟩
    | quit =>
      exact ⟨pure { form, continues := false }, by rw [respond, if_neg hb, hl], h, by simp⟩

end Lines

structure Exchange where
  line : String
  before : Form PageRegion
  response : Response

/-- The lines of a preview up to one that ends it, with what becomes of each. -/
def exchanges (form : Form PageRegion) : List String → List Exchange
  | [] => []
  | line :: lines =>
    match respond line form with
    | .error _ => []
    | .ok response =>
      ⟨line, form, response.value⟩ ::
        if response.value.continues then exchanges response.value.form lines else []

section Exchanges

variable {lines : List String}

/-- What a preview prints is printed in its exchanges, and it does not fail. -/
theorem Ready.runLines_eq (h : Ready config form) (lines : List String) :
    runLines form lines = ((exchanges form lines).flatMap (·.response.output), none) := by
  induction lines generalizing form with
  | nil => rfl
  | cons line lines ih =>
    obtain ⟨response, hr, hready, -⟩ := h.exists_respond line
    simp only [runLines, exchanges, hr]
    split <;> simp [ih hready]

theorem Ready.exists_rest (h : Ready config form) (lines : List String) :
    (∃ rest, lines = (exchanges form lines).map Exchange.line ++ rest ∧
      (rest = [] ∨ ∃ e, (exchanges form lines).getLast? = some e ∧
        Command.ofLine? e.line = some .quit)) ∧
    ∀ e ∈ (exchanges form lines).dropLast, Command.ofLine? e.line ≠ some .quit := by
  induction lines generalizing form with
  | nil => exact ⟨⟨[], rfl, .inl rfl⟩, by simp [exchanges]⟩
  | cons line lines ih =>
    obtain ⟨response, hr, hready, hquit⟩ := h.exists_respond line
    simp only [exchanges, hr]
    cases hc : response.value.continues with
    | false => exact ⟨⟨lines, rfl, .inr ⟨_, rfl, hquit.mp hc⟩⟩, by simp⟩
    | true =>
      obtain ⟨⟨rest, hlines, hrest⟩, hbefore⟩ := ih hready
      rw [if_pos rfl]
      refine ⟨⟨rest, by rw [List.map_cons, List.cons_append, ← hlines], ?_⟩, fun e he => ?_⟩
      · refine hrest.imp_right fun ⟨e, he, hl⟩ => ⟨e, ?_, hl⟩
        rw [List.getLast?_cons, he, Option.getD_some]
      · have hgoes : Command.ofLine? line ≠ some .quit := fun hl => by
          rw [hquit.mpr hl] at hc
          cases hc
        cases hes : exchanges response.value.form lines with
        | nil => simp [hes] at he
        | cons e' es =>
          rw [hes, List.dropLast_cons_of_ne_nil (List.cons_ne_nil e' es), ← hes] at he
          rcases List.mem_cons.mp he with rfl | he
          · exact hgoes
          · exact hbefore e he

theorem Ready.of_mem (h : Ready config form) {e : Exchange} (he : e ∈ exchanges form lines) :
    Ready config e.before ∧ ∃ response, respond e.line e.before = .ok response ∧
      e.response = response.value := by
  induction lines generalizing form with
  | nil => cases he
  | cons line lines ih =>
    obtain ⟨response, hr, hready, -⟩ := h.exists_respond line
    simp only [exchanges, hr, List.mem_cons] at he
    rcases he with rfl | he
    · exact ⟨h, response, hr, rfl⟩
    · split at he
      · exact ih hready he
      · cases he

end Exchanges

theorem run_bind_of_ok {ε α β : Type} {x : ExceptT ε Id α} {a : α} (h : x.run = .ok a)
    (f : α → ExceptT ε Id β) : (x >>= f).run = (f a).run := by
  rw [ExceptT.run_bind, h]
  rfl

theorem exists_openForm {read : String → Option String} {a : Arguments} {config : Config}
    {region : PageRegion} {r : Resources} (hconfig : (readConfig (m := Id) read a).run = .ok config)
    (hregion : (readRegion (m := Id) read a config).run = .ok region)
    (hload : (Resources.load (m := Id) (loadText read a.directory) config).run = .ok r) :
    ∃ opened, (openForm (m := Id) read a).run = .ok opened ∧
      opened.value = (Form.fresh config region).run [.install r, .start] := by
  have hlift : (ExceptT.lift (ε := String)
      (Resources.load (m := Id) (loadText read a.directory) config).run).run = .ok (.ok r) := by
    rw [hload]
    rfl
  rw [openForm, run_bind_of_ok hconfig, run_bind_of_ok hregion, run_bind_of_ok hlift]
  exact ⟨_, rfl, rfl⟩

theorem ready_install_start (config : Config) (region : PageRegion) (r : Resources) :
    Ready config ((Form.fresh config region).run [.install r, .start]) := by
  refine ⟨Form.steady_run config region _, ?_⟩
  have hstart : Operation.NeedsGraph .start := trivial
  have hinstall : Operation.Builds config (.install r) := trivial
  rw [Form.run_cons, Form.run_cons, Form.run_nil, Form.isReady_perform hstart]
  exact Form.isReady_of_builds hinstall

/-- A preview of what can be read ends with success, at the first line that tells it to or when the
lines are over. After each interaction it prints its page. If the page has a region and a question
is shown, the nodes in the region are those of the question as it is drawn at that time. Without a
question nothing changes. -/
theorem run_prints_fresh_pages {read : String → Option String} {a : Arguments} {config : Config}
    {region : PageRegion} {r : Resources} (hconfig : (readConfig (m := Id) read a).run = .ok config)
    (hregion : (readRegion (m := Id) read a config).run = .ok region)
    (hload : (Resources.load (m := Id) (loadText read a.directory) config).run = .ok r)
    (input : String) :
    let form := (Form.fresh config region).run [.install r, .start]
    let report := run read a input
    let es := exchanges form (lines input)
    report.failure = none ∧ report.exitCode = 0 ∧
      report.outputs = greeting form ++ es.flatMap (·.response.output) ∧
      (∃ rest, Lines input.toList (es.map Exchange.line ++ rest) ∧
        (rest = [] ∨ ∃ e, es.getLast? = some e ∧ Command.Written e.line .quit)) ∧
      (∀ e ∈ es.dropLast, ¬ Command.Written e.line .quit) ∧
      (∀ e ∈ es, e.response.continues = false ↔ Command.Written e.line .quit) ∧
      ∀ e ∈ es, ∀ i, Command.Written e.line (.interact i) →
        e.response.output = [.page e.response.form.region.html] ∧
        (e.before.currentId?.isSome → ∃ q, e.response.form.current? = some q ∧
          (e.response.form.region.element?.isSome →
            e.response.form.region.attached = q.render.value)) ∧
        (e.before.currentId? = none → e.response.form = e.before) := by
  intro form report es
  obtain ⟨opened, hopened, hform⟩ := exists_openForm hconfig hregion hload
  have hready : Ready config form := ready_install_start config region r
  have hreport : report = { outputs := greeting form ++ es.flatMap (·.response.output) } := by
    simp only [report, run, hopened, hform, hready.runLines_eq, form, es]
    rfl
  obtain ⟨⟨rest, hlines, hrest⟩, hbefore⟩ := hready.exists_rest (lines input)
  refine ⟨by rw [hreport], by rw [hreport]; rfl, by rw [hreport], ?_, ?_, ?_, ?_⟩
  · exact ⟨rest, lines_eq_iff.mp hlines, by simpa only [Command.ofLine?_eq_some_iff] using hrest⟩
  · simpa only [ne_eq, Command.ofLine?_eq_some_iff] using hbefore
  · intro e he
    obtain ⟨hbefore, response, hr, hresponse⟩ := hready.of_mem he
    obtain ⟨response', hr', -, hquit⟩ := hbefore.exists_respond e.line
    obtain rfl := Except.ok.inj (hr.symm.trans hr')
    rw [hresponse, hquit, Command.ofLine?_eq_some_iff]
  · intro e he i hl
    obtain ⟨hbefore, response, hr, hresponse⟩ := hready.of_mem he
    rw [respond_of_interact hbefore (Command.ofLine?_eq_some_iff.mpr hl)] at hr
    rw [hresponse, ← Except.ok.inj hr]
    refine ⟨rfl, fun hs => ?_, fun hn => interact_of_hidden i hn⟩
    obtain ⟨hsome, hfresh⟩ := fresh_interact i hs
    rw [← (ready_interact i hbefore).steady.isSome_current?] at hsome
    obtain ⟨q, hq⟩ := Option.isSome_iff_exists.mp hsome
    exact ⟨q, hq, hfresh q hq⟩

/-- The files of a form with one text question, which is the first one if its id is `start`. -/
def oneQuestionFiles (start path : String) : Option String :=
  List.lookup path [
    ("form/templates/question.html", "<h2>\x7btitle\x7d</h2><p id=options></p>"),
    ("form/templates/option.html", "\x7bname\x7d"),
    ("form/templates/confirm.html", "OK"),
    ("form/templates/text_input.html", "<input value='\x7bvalue\x7d'>"),
    ("form/templates/definition.html", "\x7btext\x7d"),
    ("form/config/structure.json", "\x7b\"start\":\"" ++ start ++ "\",\"questions\":\x7b\"0\":\x7b" ++
      "\"title\":\"T\",\"format\":\x7b\"type\":\"text\"\x7d,\"next\":\x7b\x7d\x7d\x7d\x7d"),
    ("form/config/terminology.json", "\x7b\x7d")]

/-- A click that a text ignores leaves a fresh page, and one that no question takes leaves the
page as it was. The preview ends before the last line. -/
theorem run_prints_fresh_pages_ignored :
    let a : Arguments := { directory := "form" }
    let input := "input x\r\nclick y\nexit now\nconfirm"
    let loads (start : String) (r : Resources) : Prop :=
      (Resources.load (m := Id) (loadText (oneQuestionFiles start) a.directory) {}).run = .ok r
    let printed (r : Resources) : List Exchange :=
      exchanges ((Form.fresh {} (.blank {})).run [.install r, .start]) (lines input)
    (∃ r, loads "0" r ∧ (run (oneQuestionFiles "0") a input).exitCode = 0 ∧
      (printed r).map Exchange.line = ["input x", "click y", "exit now"] ∧
      ∃ e ∈ printed r, Command.Written e.line (.interact (.click "y")) ∧
        e.before.currentId?.isSome ∧ e.response.form.region.element?.isSome ∧
        ∃ q, e.response.form.current? = some q ∧
          e.response.form.region.attached = q.render.value) ∧
    ∃ r, loads "1" r ∧ ∃ e ∈ printed r, Command.Written e.line (.interact (.click "y")) ∧
      e.before.currentId? = none ∧ e.response.form = e.before := by
  intro a input loads printed
  have hload (start : String) (check : Resources → Bool)
      (h : (Resources.load (m := Id) (loadText (oneQuestionFiles start) a.directory)
        {}).run.toOption.any check = true) : ∃ r, loads start r ∧ check r = true := by
    cases hr : (Resources.load (m := Id) (loadText (oneQuestionFiles start) a.directory)
      {}).run with
    | error error =>
      rw [hr] at h
      cases h
    | ok r =>
      rw [hr] at h
      exact ⟨r, hr, h⟩
  obtain ⟨r, hr, hcheck⟩ := hload "0" (fun r =>
    (printed r).map Exchange.line = ["input x", "click y", "exit now"] ∧
      ∃ e ∈ printed r, Command.ofLine? e.line = some (.interact (.click "y")) ∧
        e.before.currentId?.isSome ∧ e.response.form.region.element?.isSome) (by decide +kernel)
  obtain ⟨r', hr', hcheck'⟩ := hload "1" (fun r =>
    ∃ e ∈ printed r, Command.ofLine? e.line = some (.interact (.click "y")) ∧
      e.before.currentId? = none) (by decide +kernel)
  obtain ⟨hlines, e, he, hl, hs, hregion⟩ := of_decide_eq_true hcheck
  obtain ⟨e', he', hl', hn⟩ := of_decide_eq_true hcheck'
  rw [Command.ofLine?_eq_some_iff] at hl hl'
  obtain ⟨-, hexit, -, -, -, -, hpages⟩ := run_prints_fresh_pages (a := a) rfl rfl hr input
  obtain ⟨-, -, -, -, -, -, hpages'⟩ := run_prints_fresh_pages (a := a) rfl rfl hr' input
  obtain ⟨-, hfresh, -⟩ := hpages e he _ hl
  obtain ⟨q, hq, hattached⟩ := hfresh hs
  exact ⟨⟨r, hr, hexit, hlines, e, he, hl, hs, hregion, q, hq, hattached hregion⟩,
    r', hr', e', he', hl', hn, (hpages' e' he' _ hl').2.2 hn⟩

end Preview

end Questionnaire

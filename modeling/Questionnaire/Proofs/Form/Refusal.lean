import Questionnaire.Proofs.Form.Display
import Questionnaire.Proofs.Form.Steady
import Questionnaire.Proofs.Graph.Partition

/-! # Refused moves

The dangling transitions of a graph are found before anything is answered, and they are
exactly the moves that a form refuses later. Where there are none, every transition that
has a target ends there, and a started form always shows a question.
-/

namespace Questionnaire

theorem QuestionSpec.target?_eq_bind (separator : String) (q : QuestionSpec) (a : Answer) :
    q.target? separator a = (a.key? separator).bind q.next.get? := by
  rw [target?, Answer.key?]
  rcases a with ⟨_ | ⟨v, _ | ⟨w, vs⟩⟩⟩ <;> rfl

theorem Graph.mem_dangling_build_iff {outline : Outline} {context : Context}
    {source answer target : String} :
    let g := (build outline context).value.1
    ⟨source, answer, target⟩ ∈ g.dangling ↔ g.contains source ∧
      (∃ spec, outline.spec? source = some spec ∧ spec.next.get? answer = some target) ∧
      ¬ g.contains target := by
  intro g
  rw [mem_dangling_iff (wired_build outline context).named, Bool.not_eq_true,
    contains_eq_false_iff, contains_build_iff]
  constructor
  · rintro ⟨q, hq, hnext, hnone⟩
    obtain ⟨spec, hspec, rfl⟩ := get?_build_eq_some_iff.mp hq
    rw [Question.value_create] at hnext
    exact ⟨⟨spec, hspec⟩, ⟨spec, hspec, hnext⟩, hnone⟩
  · rintro ⟨-, ⟨spec, hspec, hnext⟩, hnone⟩
    refine ⟨_, get?_build_eq_some_iff.mpr ⟨spec, hspec, rfl⟩, ?_, hnone⟩
    rw [Question.value_create]
    exact hnext

namespace Chart

variable {c : Chart} {s : Session}

theorem isSome_shown_step (h : s.shown.isSome) (i : Interaction) :
    (c.step s i).1.shown.isSome := by
  obtain ⟨id, hid⟩ := Option.isSome_iff_exists.mp h
  cases hs : c.spec? id with
  | none =>
    rw [step_of_unknown i hid hs]
    exact h
  | some spec =>
    rw [step_of_some i hid hs, answer]
    split <;> rfl

theorem isSome_shown_run (h : s.shown.isSome) (is : List Interaction) :
    (c.run s is).1.shown.isSome := by
  induction is generalizing s with
  | nil => exact h
  | cons i is ih => exact ih (isSome_shown_step h i)

end Chart

namespace Form

open DisplayRegion

section Session

variable {ρ : Type} [DisplayRegion ρ] {r : Resources} {config : Config} {s : Session}
  {f : Form ρ} {g : Graph} {answers : String → Answer}

omit [DisplayRegion ρ] in
theorem Answers.mem_dangling_iff (h : Answers r config answers g) {d : Graph.Dangling} :
    d ∈ g.dangling ↔ ∃ spec, r.outline.spec? d.source = some spec ∧
      spec.next.get? d.answer = some d.target ∧ r.outline.spec? d.target = none := by
  rw [Graph.mem_dangling_iff h.named, h d.target, Option.map_eq_none_iff]
  constructor
  · rintro ⟨q, hq, hnext, hnone⟩
    obtain ⟨spec, hspec, rfl⟩ := h.exists_spec hq
    rw [Question.answered_eq] at hnext
    exact ⟨spec, hspec, hnext, hnone⟩
  · rintro ⟨spec, hspec, hnext, hnone⟩
    refine ⟨_, h.get?_of_some hspec, ?_, hnone⟩
    rw [Question.answered_eq]
    exact hnext

theorem Answers.dangling_eq {answers' : String → Answer} {g' : Graph}
    (h : Answers r config answers g) (h' : Answers r config answers' g') :
    g.dangling = g'.dangling := by
  refine List.Pairwise.eq_of_mem_iff (Graph.pairwise_dangling h.named)
    (Graph.pairwise_dangling h'.named) fun d => ?_
  rw [h.mem_dangling_iff, h'.mem_dangling_iff]

omit [DisplayRegion ρ] in
theorem Answers.contains_eq {answers' : String → Answer} {g' : Graph}
    (h : Answers r config answers g) (h' : Answers r config answers' g') (id : String) :
    g.contains id = g'.contains id := by
  change (g.get? id).isSome = (g'.get? id).isSome
  rw [h id, h' id, Option.isSome_map, Option.isSome_map]

theorem Mirrors.follow_of_mem (h : Mirrors r config s f) (hs : (r.chart config).Shows s)
    {i : Interaction} {ts : List Transition} {t : Transition}
    (hd : (f.dispatch i).value.2 = .ok ts) (ht : t ∈ ts) :
    ∃ (spec : QuestionSpec) (s' : Session) (f' : Form ρ), s.shown = some t.source ∧
      r.outline.spec? t.source = some spec ∧
      spec.target? config.answerSeparator t.answer = t.target ∧
      Mirrors r config s' f' ∧ s'.shown = some t.source ∧ f'.region = f.region ∧
      (f.dispatch i).value.1 = (f'.follow t).value := by
  obtain ⟨⟨g, hp, hg⟩, hm⟩ := id h
  cases hid : s.shown with
  | none =>
    rw [dispatch_of_hidden i (hid ▸ hp)] at hd
    obtain rfl : [] = ts := Except.ok.inj hd
    cases ht
  | some id =>
    obtain ⟨spec, hspec⟩ := hs id hid
    obtain ⟨hdelivered, hw⟩ := mirrors_delivered (f := f) i hspec hg hm
    rw [value_dispatch i (hid ▸ hp) (hg.get?_of_some hspec), hw] at hd ⊢
    obtain rfl := Except.ok.inj hd
    split at ht
    · next hconfirmed =>
      obtain rfl := List.mem_singleton.mp ht
      rw [if_pos hconfirmed]
      exact ⟨spec, _, _, rfl, hspec, rfl, hdelivered, rfl, rfl, rfl⟩
    · cases ht

theorem region_showing (g : Graph) (q : Question) (next : String) {graph : Graph} {id : String}
    (h : f.phase = .ready graph (some id)) :
    (f.showing g q next).region = (attach q.render.value (detach f.region)).value := by
  simp [showing, clear, h]

/-- A transition with a target has been looked up by the key of its answer. The form then
shows the target in the place of the question before, if it is a question, and is left with
that question if it is none. -/
theorem Mirrors.move_cases (h : Mirrors r config s f) (hs : (r.chart config).Shows s)
    {i : Interaction} {ts : List Transition} {t : Transition} {next : String}
    (hd : (f.dispatch i).value.2 = .ok ts) (ht : t ∈ ts) (hto : t.target = some next) :
    (∃ spec key, r.outline.spec? t.source = some spec ∧
      t.answer.key? config.answerSeparator = some key ∧ spec.next.get? key = some next) ∧
    f.currentId? = some t.source ∧
    (r.outline.spec? next = none ∧ (f.dispatch i).value.1.region = f.region ∧
        (f.dispatch i).value.1.currentId? = some t.source ∨
      r.outline.spec? next ≠ none ∧ (f.dispatch i).value.1.currentId? = some next ∧
        ∃ q, (f.dispatch i).value.1.current? = some q ∧
          (f.dispatch i).value.1.region = (attach q.render.value (detach f.region)).value) := by
  obtain ⟨spec, s', f', hid, hspec, htarget, hm, hid', hregion, hf⟩ := h.follow_of_mem hs hd ht
  refine ⟨?_, h.currentId?.trans hid, ?_⟩
  · rw [hto, QuestionSpec.target?_eq_bind] at htarget
    obtain ⟨key, hkey, hnext⟩ := Option.bind_eq_some_iff.mp htarget
    exact ⟨spec, key, hspec, hkey, hnext⟩
  · obtain ⟨g, hp, hg⟩ := hm.phase
    rw [hid'] at hp
    have hfollow : (f'.follow t).value = (f'.advance next).value.1 := by
      rw [value_follow, if_pos (hm.currentId?.trans hid'), hto, Option.elim_some]
    rw [hf, hfollow]
    cases hn : r.outline.spec? next with
    | none =>
      rw [value_advance_of_none hp (hg.get?_of_none hn)]
      exact .inl ⟨rfl, hregion, hm.currentId?.trans hid'⟩
    | some spec' =>
      have hq := hg.get?_of_some hn
      rw [value_advance_of_some hp hq]
      refine .inr ⟨nofun, rfl, _, hq, ?_⟩
      rw [← hregion]
      exact region_showing g _ next hp

end Session

theorem calls_concat (config : Config) (ops : List Operation) (op : Operation) :
    calls config (ops ++ [op]) =
      (((fresh config ({} : Recorder)).run ops).perform op).region.calls := by
  rw [calls, run_append, run_cons, run_nil]

section Recorded

variable {r : Resources} {config : Config} {s : Session} {g : Graph} {f : Form Recorder}

theorem Mirrors.refused_iff (h : Mirrors r config s f) (hs : (r.chart config).Shows s)
    (hg : f.graph? = some g) {i : Interaction} {ts : List Transition} {t : Transition}
    {next : String} (hd : (f.dispatch i).value.2 = .ok ts) (ht : t ∈ ts)
    (hto : t.target = some next) :
    let f' := f.perform (.dispatch i)
    ∃ key, t.answer.key? config.answerSeparator = some key ∧
      (f'.region.calls = f.region.calls ∧ f'.currentId? = f.currentId? ↔
        ⟨t.source, key, next⟩ ∈ g.dangling) ∧
      (⟨t.source, key, next⟩ ∉ g.dangling → f'.currentId? = some next ∧
        ∃ q, f'.current? = some q ∧
          f'.region.calls = f.region.calls ++ [.detach, .attach q.render.value]) := by
  intro f'
  obtain ⟨⟨spec, key, hspec, hkey, hnext⟩, hid, hmove⟩ := h.move_cases hs hd ht hto
  have hdangling : ⟨t.source, key, next⟩ ∈ g.dangling ↔ r.outline.spec? next = none := by
    rw [(h.phase_of_graph? hg).2.mem_dangling_iff]
    simp [hspec, hnext]
  refine ⟨key, hkey, ?_⟩
  rw [hdangling]
  rcases hmove with ⟨hnone, hregion, hid'⟩ | ⟨hsome, hid', q, hq, hregion⟩
  · refine ⟨iff_of_true ⟨congrArg Recorder.calls hregion, hid'.trans hid.symm⟩ hnone, ?_⟩
    intro hsome
    exact (hsome hnone).elim
  · have hcalls : f'.region.calls = f.region.calls ++ [.detach, .attach q.render.value] := by
      change (f.dispatch i).value.1.region.calls = _
      rw [hregion, Recorder.calls_attach, Recorder.calls_detach, List.append_assoc]
      rfl
    refine ⟨iff_of_false ?_ hsome, fun _ => ⟨hid', q, hq, hcalls⟩⟩
    rintro ⟨hsame, -⟩
    simp [hcalls] at hsame

end Recorded

variable {ρ : Type} [DisplayRegion ρ]

theorem outcome_dispatch_onto (region : ρ) (f : Form Recorder) (i : Interaction) :
    ((f.onto region).dispatch i).value.2 = (f.dispatch i).value.2 := by
  cases hp : f.phase with
  | ready graph current =>
    have hr : (f.onto region).phase = .ready graph current := hp
    cases current with
    | none => rw [dispatch_of_hidden i hr, dispatch_of_hidden i hp]; rfl
    | some id =>
      cases hq : graph.get? id with
      | none => rw [dispatch_of_none i hr hq, dispatch_of_none i hp hq]; rfl
      | some q => rw [value_dispatch i hr hq, value_dispatch i hp hq]; rfl
  | _ => rw [dispatch_of_loading, dispatch_of_loading] <;> simp [graph?, onto, hp]

/-- A move of a run is refused exactly if it dangles, whatever the region is. -/
theorem Mirrors.refused_run_iff {r : Resources} {config : Config} {s : Session} {g : Graph}
    {region : ρ} {ops : List Operation} (h : Mirrors r config s ((fresh config region).run ops))
    (hs : (r.chart config).Shows s) (hg : ((fresh config region).run ops).graph? = some g)
    {i : Interaction} {ts : List Transition} {t : Transition} {next : String}
    (hd : (((fresh config region).run ops).dispatch i).value.2 = .ok ts) (ht : t ∈ ts)
    (hto : t.target = some next) :
    let f := (fresh config region).run ops
    let f' := f.perform (.dispatch i)
    ∃ key, t.answer.key? config.answerSeparator = some key ∧
      (calls config (ops ++ [.dispatch i]) = calls config ops ∧ f'.currentId? = f.currentId? ↔
        ⟨t.source, key, next⟩ ∈ g.dangling) ∧
      (⟨t.source, key, next⟩ ∉ g.dangling → f'.currentId? = some next ∧
        ∃ q, f'.current? = some q ∧ calls config (ops ++ [.dispatch i]) =
          calls config ops ++ [.detach, .attach q.render.value]) := by
  intro f f'
  -- the form over a recorder is in the same session, and its calls are those of the run
  let F := (fresh config ({} : Recorder)).run ops
  have hf : f = F.onto region := fresh_onto config region ops
  have hf' : f' = (F.perform (.dispatch i)).onto region := by rw [← perform_onto, ← hf]
  have hF : Mirrors r config s F := by
    rw [fresh_onto] at h
    exact ⟨h.phase, h.mailbox⟩
  have hgF : F.graph? = some g := by
    rw [fresh_onto] at hg
    exact hg
  have hdF : (F.dispatch i).value.2 = .ok ts := by
    rw [← outcome_dispatch_onto region, ← hf]
    exact hd
  rw [calls_concat, hf', hf]
  exact hF.refused_iff hs hgF hdF ht hto

section Landing

variable {r : Resources} {config : Config} {s : Session} {f : Form ρ} {g : Graph}
  {answers : String → Answer}

/-- Where nothing dangles a form that shows a question shows one of the graph, and its moves
end on their targets. -/
theorem Mirrors.lands (h : Mirrors r config s f) (hs : (r.chart config).Shows s)
    (hshown : s.shown.isSome) (hg : Answers r config answers g) (hd : g.dangling = []) :
    f.current?.isSome ∧ ∀ i ts t next, (f.dispatch i).value.2 = .ok ts → t ∈ ts →
      t.target = some next → (f.perform (.dispatch i)).currentId? = some next := by
  constructor
  · obtain ⟨id, hid⟩ := Option.isSome_iff_exists.mp hshown
    obtain ⟨spec, hspec⟩ := hs id hid
    obtain ⟨g', hp, hg'⟩ := h.phase
    simp [current?, hp, hid, hg'.get?_of_some hspec]
  · intro i ts t next hout ht hto
    obtain ⟨⟨spec, key, hspec, -, hnext⟩, -, hmove⟩ := h.move_cases hs hout ht hto
    rcases hmove with ⟨hnone, -, -⟩ | ⟨-, hid, -⟩
    · have hmem : ⟨t.source, key, next⟩ ∈ g.dangling :=
        hg.mem_dangling_iff.mpr ⟨spec, hspec, hnext, hnone⟩
      rw [hd] at hmem
      cases hmem
    · exact hid

end Landing

/-- The dangling transitions of a built graph are those that lead from a question of the graph
to none. Those of a form are of a built graph, stay the same in every run of dispatches, and are
the moves that are refused. If there are none, a started form shows a question of the graph at
every time, and transitions with a target end there. -/
theorem refused_iff_dangling (outline : Outline) (context : Context) (config : Config)
    (region : ρ) (ops : List Operation) :
    let g := (Graph.build outline context).value.1
    (g.dangling.Pairwise Graph.Dangling.Precedes ∧
      ∀ source answer target, ⟨source, answer, target⟩ ∈ g.dangling ↔
        g.contains source ∧ (∃ spec, outline.spec? source = some spec ∧
          spec.next.get? answer = some target) ∧ ¬ g.contains target) ∧
    ∀ graph, ((fresh config region).run ops).graph? = some graph →
      let f := (fresh config region).run ops
      (∃ r : Resources, graph.dangling = (built r config).1.dangling ∧
        ∀ id, graph.contains id = (built r config).1.contains id) ∧
      (∀ is : List Interaction,
        (f.run (is.map .dispatch)).graph?.map Graph.dangling = some graph.dangling) ∧
      (∀ i ts t next, (f.dispatch i).value.2 = .ok ts → t ∈ ts → t.target = some next →
        let f' := f.perform (.dispatch i)
        ∃ key, t.answer.key? config.answerSeparator = some key ∧
          (calls config (ops ++ [.dispatch i]) = calls config ops ∧
            f'.currentId? = f.currentId? ↔ ⟨t.source, key, next⟩ ∈ graph.dangling) ∧
          (⟨t.source, key, next⟩ ∉ graph.dangling → f'.currentId? = some next ∧
            ∃ q, f'.current? = some q ∧ calls config (ops ++ [.dispatch i]) =
              calls config ops ++ [.detach, .attach q.render.value])) ∧
      (graph.dangling = [] → graph.startQuestion?.isSome → ∀ is : List Interaction,
        let f' := f.run (.start :: is.map .dispatch)
        f'.current?.isSome ∧ ∀ i ts t next, (f'.dispatch i).value.2 = .ok ts → t ∈ ts →
          t.target = some next → (f'.perform (.dispatch i)).currentId? = some next) := by
  intro g
  constructor
  · refine ⟨Graph.pairwise_dangling (Graph.wired_build outline context).named, ?_⟩
    intro source answer target
    exact Graph.mem_dangling_build_iff
  · intro graph hg f
    obtain ⟨r, s, hm, hs⟩ := (steady_run config region ops).session graph hg
    obtain ⟨hp, ha⟩ := hm.phase_of_graph? hg
    refine ⟨⟨r, ha.dangling_eq (answers_built r config), ?_⟩, ?_, ?_, ?_⟩
    · intro id
      exact ha.contains_eq (answers_built r config) id
    · intro is
      obtain ⟨g', hp', ha'⟩ := (mirrors_run hm is).1.phase
      rw [graph?_of_phase hp', Option.map_some, ha'.dangling_eq ha]
    · intro i ts t next hd ht hto
      exact hm.refused_run_iff hs hg hd ht hto
    · intro hempty hstart is
      obtain ⟨q, hq⟩ := Option.isSome_iff_exists.mp hstart
      obtain ⟨hm', hs'⟩ := hm.start hp hq
      exact (mirrors_run hm' is).1.lands (hs'.run is) (Chart.isSome_shown_run rfl is) ha hempty

/-- Resources with one question, where the answer x leads to a given one. -/
def leadingTo (target : String) : Resources :=
  { oneQuestion with outline := ⟨"0", .ofList [("0", .object
    [("format", .object [("type", .string "text")]), ("next", .object [("x", .string target)]),
      ("title", .string "T")])]⟩ }

/-- The same answer is refused where it leads nowhere, and starts its question anew where it
leads back. -/
theorem refused_or_repeated :
    let x : Interaction := .submit "x"
    let away : List Operation := [.install (leadingTo "1"), .start]
    let back : List Operation := [.install (leadingTo "0"), .start]
    let f := (fresh {} ({} : Recorder)).run away
    let g := (fresh {} ({} : Recorder)).run back
    let h := g.run [.start, .dispatch (.input "y")]
    (f.graph? = some (built (leadingTo "1") {}).1 ∧
      (f.dispatch x).value.2 = .ok [⟨"0", .single "x", some "1"⟩] ∧
      calls {} (away ++ [.dispatch x]) = calls {} away ∧
      (f.perform (.dispatch x)).currentId? = f.currentId?) ∧
    (g.graph? = some (built (leadingTo "0") {}).1 ∧
      (g.dispatch x).value.2 = .ok [⟨"0", .single "x", some "0"⟩] ∧
      ⟨"0", "x", "0"⟩ ∉ (built (leadingTo "0") {}).1.dangling ∧
      ∃ q, (g.perform (.dispatch x)).current? = some q ∧
        calls {} (back ++ [.dispatch x]) = calls {} back ++ [.detach, .attach q.render.value]) ∧
    ((built (leadingTo "0") {}).1.dangling = [] ∧
      (built (leadingTo "0") {}).1.startQuestion?.isSome ∧ h.current?.isSome ∧
      (h.dispatch x).value.2 = .ok [⟨"0", .single "x", some "0"⟩] ∧
      (h.perform (.dispatch x)).currentId? = some "0") := by
  intro x away back f g h
  have hf : f.graph? = some (built (leadingTo "1") {}).1 := rfl
  have hg : g.graph? = some (built (leadingTo "0") {}).1 := rfl
  have hfx : (f.dispatch x).value.2 = .ok [⟨"0", .single "x", some "1"⟩] := rfl
  have hgx : (g.dispatch x).value.2 = .ok [⟨"0", .single "x", some "0"⟩] := rfl
  have hhx : (h.dispatch x).value.2 = .ok [⟨"0", .single "x", some "0"⟩] := rfl
  have hout : ⟨"0", "x", "1"⟩ ∈ (built (leadingTo "1") {}).1.dangling := .head _
  have hin : ⟨"0", "x", "0"⟩ ∉ (built (leadingTo "0") {}).1.dangling := nofun
  obtain ⟨-, haway⟩ := refused_iff_dangling (leadingTo "1").outline
    ((leadingTo "1").context {}) {} ({} : Recorder) away
  obtain ⟨-, hback⟩ := refused_iff_dangling (leadingTo "0").outline
    ((leadingTo "0").context {}) {} ({} : Recorder) back
  obtain ⟨-, -, hmove, -⟩ := haway _ hf
  obtain ⟨-, -, hmove', hland⟩ := hback _ hg
  obtain ⟨key, hkey, hrefused, -⟩ := hmove x _ _ "1" hfx (.head _) rfl
  obtain ⟨key', hkey', -, hshown⟩ := hmove' x _ _ "0" hgx (.head _) rfl
  obtain rfl : "x" = key := Option.some.inj hkey
  obtain rfl : "x" = key' := Option.some.inj hkey'
  obtain ⟨hcurrent, hlanded⟩ := hland rfl rfl [.input "y"]
  exact ⟨⟨hf, hfx, hrefused.mpr hout⟩, ⟨hg, hgx, hin, (hshown hin).2⟩, rfl, rfl, hcurrent, hhx,
    hlanded x _ _ "0" hhx (.head _) rfl⟩

end Form

end Questionnaire

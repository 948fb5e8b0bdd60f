import Questionnaire.Proofs.Form.Reachable
import Questionnaire.Proofs.Region.Indicator

/-! # The start question on a page

A form over a page attaches its start question and then puts the loading indicator away. Where
the indicator does not intrude on the question, the region has the question attached. Where it
does, the form has started all the same, but the page does not show the question as it is.
-/

namespace Questionnaire.Form

open Markup (Node Tag Place)
open Markup.Node (elementsList)
open PageRegion (Holds Intrudes)

/-- A form over a page that has been given its resources. -/
def opened (config : Config) (page : List Node) (r : Resources) : Form PageRegion :=
  (fresh config (.ofPage page config)).run [.install r]

variable {config : Config} {r : Resources} {q : Question}

theorem value_start_opened (page : List Node) (hq : (built r config).1.startQuestion? = some q) :
    (opened config page r).start.value.2 = .ok q.id ∧
      (opened config page r).start.value.1.region =
        ((PageRegion.ofPage page config).attach q.render.value).value.loadingFinished := by
  have hopened : opened config page r = { fresh config (PageRegion.ofPage page config) with
      phase := .ready (built r config).1 none
      buildErrors := (built r config).2 } := by
    rw [opened, run_cons, run_nil, perform, value_install]
    rfl
  have hp : (opened config page r).phase = .ready (built r config).1 none := by rw [hopened]
  rw [value_start_of_some hp hq, hopened]
  exact ⟨rfl, rfl⟩

/-- The start question is built. On a page with a region the form starts, and the question is what
the region has attached unless the loading indicator intrudes on it. If the indicator intrudes, the
region has something else attached, provided that its id is not used again behind it. -/
theorem start_shows_unless_intrudes (config : Config) (page : List Node) (r : Resources)
    (hpage : ∃ e ∈ elementsList page, e.tag.id? = some config.displayRegion)
    (hq : (built r config).1.startQuestion? = some q) :
    let nodes := q.render.value
    let started := (opened config page r).start.value
    started.2 = .ok q.id ∧
      ∃ (p : Place) (t : Tag) (cs : List Node), page = p.fill (.element t cs) ∧
        t.id? = some config.displayRegion ∧ p.IsFirst config.displayRegion ∧
        (¬ Intrudes config.loadingIndicator p t cs nodes →
          started.1.region.attached = nodes ∧
            ∃ cs', started.1.region.element? = some ⟨t, cs' ++ nodes⟩) ∧
        (Intrudes config.loadingIndicator p t cs nodes → nodes ≠ [] →
          p.IsLast config.displayRegion → started.1.region.attached ≠ nodes) := by
  intro nodes started
  obtain ⟨hid, hregion⟩ := value_start_opened page hq
  obtain ⟨e, he, hdisplay⟩ := hpage
  have hfound : (PageRegion.ofPage page config).element? ≠ none := fun hnone =>
    Markup.Node.withIdList?_eq_none_iff.mp hnone e he hdisplay
  obtain ⟨⟨t, cs⟩, helement⟩ := Option.ne_none_iff_exists'.mp hfound
  obtain ⟨p, hfresh, hp, ht⟩ := PageRegion.exists_holds helement rfl
  have hplace : page = p.fill (.element t cs) := by
    have hfill := hfresh.page
    rwa [List.append_nil] at hfill
  have hshown : Holds config.displayRegion p t cs nodes
      ((PageRegion.ofPage page config).attach nodes).value := hfresh.attach hp ht nodes
  have hloading : ((PageRegion.ofPage page config).attach nodes).value.loadingId =
      config.loadingIndicator := PageRegion.loadingId_attach nodes _
  refine ⟨hid, p, t, cs, hplace, ht, hp, ?_, ?_⟩
  · intro hi
    rw [← hloading] at hi
    obtain ⟨p', cs', hp', hkept⟩ := hshown.loadingFinished hp hi
    rw [hregion]
    exact ⟨hkept.attached hp' ht, cs', hkept.element? hp' ht⟩
  · intro hi hnodes hlast
    rw [← hloading] at hi
    rw [hregion]
    exact hshown.attached_loadingFinished_ne hp ht hlast hnodes hi

/-- Resources whose only question has the id of the loading indicator and carries it. -/
def loadingQuestion : Resources where
  templates := .ofSources
    "<h2 id=\"{id}\">{title}</h2><div id=\"options\"></div>" "" none "<input>" ""
  outline := { start := "loading", questions := .ofList [("loading", .object
    [("format", .object [("type", .string "text")]), ("next", .object []),
      ("title", .string "Unloading")])] }
  terminology := .empty

/-- The loading indicator stands in front of a region that has content of its own. -/
theorem start_shows_behind_indicator :
    let page : List Node := [.element ⟨"div", [("id", some "loading")]⟩ [.text "Loading..."],
      .element ⟨"main", [("id", some "questions")]⟩ [.element ⟨"h1", []⟩ [.text "Survey"]]]
    let started := (opened {} page loadingQuestion).start.value
    ∃ q : Question, (∃ e ∈ elementsList page, e.tag.id? = some "questions") ∧
      (built loadingQuestion {}).1.startQuestion? = some q ∧ started.2 = .ok q.id ∧
      q.render.value ≠ [] ∧ started.1.region.attached = q.render.value ∧
      ∃ cs, started.1.region.element? =
        some ⟨⟨"main", [("id", some "questions")]⟩, cs ++ q.render.value⟩ := by
  intro page started
  have hpage : ∃ e ∈ elementsList page, e.tag.id? = some "questions" :=
    ⟨_, .tail _ (.head _), rfl⟩
  obtain ⟨q, hq, hnodes⟩ : ∃ q, (built loadingQuestion {}).1.startQuestion? = some q ∧
      q.render.value ≠ [] := ⟨_, rfl, by decide +kernel⟩
  obtain ⟨hid, p, t, cs, hplace, ht, hp, hshows, -⟩ :=
    start_shows_unless_intrudes {} page loadingQuestion hpage hq
  have hregion : (Place.behind (.element ⟨"div", [("id", some "loading")]⟩ [.text "Loading..."])
      (.head [])).IsFirst "questions" := Place.isFirst_behind.mpr ⟨rfl, Place.isFirst_head _ _⟩
  obtain ⟨rfl, rfl, rfl⟩ := Place.eq_of_fill hregion rfl hp ht hplace
  obtain ⟨hattached, helement⟩ := hshows fun hi => by
    -- the indicator in front of the region is the first element of its id
    cases hi with
    | around he => exact he.2
    | region hfirst => exact hfirst _ (.head _) rfl
    | among hfirst => exact hfirst _ (.head _) rfl
  exact ⟨q, hpage, hq, hid, hnodes, hattached, helement⟩

/-- With the loading indicator behind the region, putting it away empties the question's own
element of its id. -/
theorem start_empties_loading_question :
    let page : List Node := [.element ⟨"main", [("id", some "questions")]⟩ [],
      .element ⟨"div", [("id", some "loading")]⟩ [.text "Loading..."]]
    let started := (opened {} page loadingQuestion).start.value
    (∃ e ∈ elementsList page, e.tag.id? = some "questions") ∧
      ∃ q : Question, (built loadingQuestion {}).1.startQuestion? = some q ∧
        started.2 = .ok q.id ∧ started.1.region.attached ≠ q.render.value := by
  refine ⟨⟨_, .head _, rfl⟩, _, rfl, rfl, ?_⟩
  decide +kernel

end Questionnaire.Form

import Questionnaire.Proofs.Markup.Place
import Questionnaire.Proofs.Region.Page

/-! # The content of a page region

A host puts nodes into a region and takes them out again. After any number of such
edits the element of the region has the children it had at first and behind them the
nodes put in since the last were taken out. The rest of the page is as it was.
-/

namespace Questionnaire

open Markup (Node Tag Place)
open Markup.Node (changed elementsList)
open RegionCall (replay)

/-- What a host does with the nodes of a region. -/
inductive Edit where
  | attach (nodes : List Node)
  | detach

namespace Edit

def call : Edit → RegionCall
  | attach nodes => .attach nodes
  | detach => .detach

def apply (held : List Node) : Edit → List Node
  | attach nodes => held ++ nodes
  | detach => []

/-- The nodes attached since the last detach, in their order. -/
def content (edits : List Edit) : List Node := edits.foldl apply []

end Edit

namespace PageRegion

/-- The element of a region stands in a place of the page. It has children of the page's own
and behind them the nodes of the region, whose places are known unless there are none. -/
structure Holds (id : String) (p : Place) (t : Tag) (cs nodes : List Node) (r : PageRegion) :
    Prop where
  regionId : r.regionId = id
  page : r.page = p.fill (.element t (cs ++ nodes))
  range : r.range = none ∧ nodes = [] ∨ r.range = some (cs.length, cs.length + nodes.length)

section Holds

variable {id : String} {p : Place} {t : Tag} {cs nodes : List Node} {r : PageRegion}

/-- The nodes of the region come behind the tag of its element, so that no id among them hides
the element. -/
theorem Holds.element? (h : Holds id p t cs nodes r) (hp : p.IsFirst id) (ht : t.id? = some id) :
    r.element? = some ⟨t, cs ++ nodes⟩ := by
  rw [PageRegion.element?, Markup.elementById?, h.regionId, h.page, Place.withIdList?_fill hp ht]

theorem Holds.attach (h : Holds id p t cs nodes r) (hp : p.IsFirst id) (ht : t.id? = some id)
    (ms : List Node) : Holds id p t cs (nodes ++ ms) (r.attach ms).value := by
  have hpage : changed r.regionId (put ms) r.page =
      p.fill (.element t (cs ++ (nodes ++ ms))) := by
    rw [h.regionId, h.page, Place.changed_fill hp ht, put, List.append_assoc]
    rfl
  rw [value_attach (h.element? hp ht)]
  refine ⟨h.regionId, hpage, .inr ?_⟩
  rcases h.range with ⟨hr, rfl⟩ | hr
  · simp [hr]
  · simp [hr, Nat.add_assoc]

theorem Holds.detach (h : Holds id p t cs nodes r) (hp : p.IsFirst id) (ht : t.id? = some id) :
    Holds id p t cs [] r.detach := by
  rcases h.range with ⟨hr, rfl⟩ | hr
  · rw [detach_of_none hr]
    exact h
  · have hpage : changed r.regionId (.cutOut cs.length (cs.length + nodes.length)) r.page =
        p.fill (.element t (cs ++ [])) := by
      rw [h.regionId, h.page, Place.changed_fill hp ht]
      simp [Markup.Element.cutOut, Markup.Element.toNode]
    rw [detach_of_some hr]
    exact ⟨h.regionId, hpage, .inl ⟨rfl, rfl⟩⟩

theorem Holds.replay (h : Holds id p t cs nodes r) (hp : p.IsFirst id) (ht : t.id? = some id)
    (edits : List Edit) :
    Holds id p t cs (edits.foldl Edit.apply nodes) (replay (edits.map Edit.call) r) := by
  induction edits generalizing nodes r with
  | nil => exact h
  | cons edit edits ih =>
    cases edit with
    | attach ms => exact ih (h.attach hp ht ms)
    | detach => exact ih (h.detach hp ht)

theorem Holds.attached (h : Holds id p t cs nodes r) (hp : p.IsFirst id) (ht : t.id? = some id) :
    r.attached = nodes := by
  rcases h.range with ⟨hr, rfl⟩ | hr
  · simp [PageRegion.attached, hr]
  · simp [PageRegion.attached, hr, h.element? hp ht, List.take_length_add_append]

end Holds

theorem exists_holds {r : PageRegion} {e : Markup.Element} (he : r.element? = some e)
    (hr : r.range = none) : ∃ p : Place, Holds r.regionId p e.tag e.children [] r ∧
      p.IsFirst r.regionId ∧ e.tag.id? = some r.regionId := by
  obtain ⟨p, hpage, ht, hp⟩ := Place.exists_fill he
  exact ⟨p, ⟨rfl, by rw [List.append_nil]; exact hpage, .inl ⟨hr, rfl⟩⟩, hp, ht⟩

theorem attached_attach {r : PageRegion} {e : Markup.Element} (he : r.element? = some e)
    (hr : r.range = none) (nodes : List Node) : (r.attach nodes).value.attached = nodes := by
  obtain ⟨p, h, hp, ht⟩ := exists_holds he hr
  exact (h.attach hp ht nodes).attached hp ht

theorem replay_of_none {r : PageRegion} (h : r.element? = none) (hr : r.range = none)
    (edits : List Edit) : replay (edits.map Edit.call) r = r := by
  induction edits with
  | nil => rfl
  | cons edit edits ih =>
    have hedit : edit.call.apply r = r := by
      cases edit with
      | attach nodes => exact attach_of_none h
      | detach => exact detach_of_none hr
    rw [List.map_cons, RegionCall.replay_cons, hedit, ih]

/-- Edits of a region put nodes behind the children of the first element of its id and take
just these nodes out again. On a page without such an element they do nothing. -/
theorem replay_edits_eq_fill (page : List Node) (config : Config) :
    ((∃ e ∈ elementsList page, e.tag.id? = some config.displayRegion) →
      ∃ (p : Place) (t : Tag) (cs : List Node), page = p.fill (.element t cs) ∧
        t.id? = some config.displayRegion ∧ p.IsFirst config.displayRegion ∧
        ∀ edits : List Edit,
          let r := replay (edits.map Edit.call) (ofPage page config)
          r.page = p.fill (.element t (cs ++ Edit.content edits)) ∧
            r.attached = Edit.content edits ∧ r.detach.page = page) ∧
    ((∀ e ∈ elementsList page, e.tag.id? ≠ some config.displayRegion) →
      ∀ edits : List Edit,
        let r := replay (edits.map Edit.call) (ofPage page config)
        r.page = page ∧ r.attached = []) := by
  constructor
  · rintro ⟨e, he, hid⟩
    have hfound : Markup.Node.withIdList? config.displayRegion page ≠ none := by
      intro hnone
      exact Markup.Node.withIdList?_eq_none_iff.mp hnone e he hid
    obtain ⟨⟨t, cs⟩, hw⟩ := Option.ne_none_iff_exists'.mp hfound
    obtain ⟨p, hpage, ht, hp⟩ := Place.exists_fill hw
    refine ⟨p, t, cs, hpage, ht, hp, ?_⟩
    intro edits r
    have hfresh : Holds config.displayRegion p t cs [] (ofPage page config) :=
      ⟨rfl, by rw [List.append_nil]; exact hpage, .inl ⟨rfl, rfl⟩⟩
    have hr : Holds config.displayRegion p t cs (Edit.content edits) r :=
      hfresh.replay hp ht edits
    refine ⟨hr.page, hr.attached hp ht, ?_⟩
    rw [(hr.detach hp ht).page, List.append_nil]
    exact hpage.symm
  · intro hnone edits r
    have he : (ofPage page config).element? = none := Markup.Node.withIdList?_eq_none_iff.mpr hnone
    have hr : r = ofPage page config := replay_of_none he rfl edits
    rw [hr]
    exact ⟨rfl, rfl⟩

/-- The region is an inner element, and the nodes put into it carry its id as well. -/
theorem replay_edits_nested :
    let main : Tag := ⟨"main", [("id", some "questions")]⟩
    let page : List Node := [.text "a", .element ⟨"div", []⟩ [.element main [.text "b"]]]
    let edits : List Edit := [.attach [.text "c"], .detach, .attach [.element main []], .attach [],
      .attach [.text "d"]]
    let r := replay (edits.map Edit.call) (ofPage page {})
    let bare := replay (edits.map Edit.call) (ofPage [.text "a"] {})
    (∃ e ∈ elementsList page, e.tag.id? = some "questions") ∧
      (∃ (p : Place) (t : Tag) (cs : List Node), page = p.fill (.element t cs) ∧
        t.id? = some "questions" ∧ p.IsFirst "questions" ∧
        r.page = p.fill (.element t (cs ++ [.element main [], .text "d"])) ∧
        r.attached = [.element main [], .text "d"] ∧ r.detach.page = page) ∧
      (∀ e ∈ elementsList [.text "a"], e.tag.id? ≠ some "questions") ∧
      bare.page = [.text "a"] ∧ bare.attached = [] := by
  intro main page edits r bare
  have hsome : ∃ e ∈ elementsList page, e.tag.id? = some "questions" :=
    ⟨⟨main, [.text "b"]⟩, .tail _ (.head _), rfl⟩
  have hnone : ∀ e ∈ elementsList [.text "a"], e.tag.id? ≠ some "questions" := nofun
  obtain ⟨p, t, cs, hpage, ht, hp, h⟩ := (replay_edits_eq_fill page {}).1 hsome
  exact ⟨hsome, ⟨p, t, cs, hpage, ht, hp, h edits⟩, hnone,
    (replay_edits_eq_fill [.text "a"] {}).2 hnone edits⟩

end PageRegion

end Questionnaire

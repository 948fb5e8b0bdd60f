import Questionnaire.Proofs.Markup.Enclosed
import Questionnaire.Proofs.Region.Content

/-! # The loading indicator of a page region

When a form has started, its region empties the first element with the id of the loading
indicator. The nodes of the region stay as they are, unless that element lies around the
region, is the region itself, or has children and stands among the nodes.
-/

namespace Questionnaire.PageRegion

open Markup (Node Tag Place)
open Markup.Node (changed withIdList?)

/-- The first element of an id lies around the element of a region, is that element, or has
children and stands among the nodes of the region. -/
inductive Intrudes (loading : String) (p : Place) (t : Tag) (cs nodes : List Node) : Prop where
  | around : p.Encloses loading → Intrudes loading p t cs nodes
  | region : p.IsFirst loading → t.id? = some loading → Intrudes loading p t cs nodes
  | among {e : Markup.Element} : p.IsFirst loading → t.id? ≠ some loading →
      withIdList? loading cs = none → withIdList? loading nodes = some e → e.children ≠ [] →
      Intrudes loading p t cs nodes

variable {id loading : String} {p : Place} {t : Tag} {cs nodes : List Node} {r : PageRegion}

@[simp] theorem loadingId_attach (nodes : List Node) (r : PageRegion) :
    (r.attach nodes).value.loadingId = r.loadingId := by
  cases he : r.element? with
  | none => rw [attach_of_none he]
  | some e => rw [value_attach he]

theorem exists_changed_children (hp : p.IsFirst loading) (ht : t.id? ≠ some loading)
    (hi : ¬ Intrudes loading p t cs nodes) :
    ∃ cs', changed loading .emptied (cs ++ nodes) = cs' ++ nodes ∧ cs'.length = cs.length := by
  cases hcs : withIdList? loading cs with
  | some e =>
    refine ⟨_, Markup.Node.changed_append_of_some (Option.isSome_of_eq_some hcs) nodes, ?_⟩
    exact (Markup.Node.inPlace_changed spares_loadingFinished.trims loading cs).length_eq
  | none =>
    refine ⟨cs, ?_, rfl⟩
    rw [Markup.Node.changed_append_of_none hcs]
    congr 1
    cases hnodes : withIdList? loading nodes with
    | none => exact Markup.Node.changed_of_none loading _ hnodes
    | some e =>
      refine (Markup.Node.changed_emptied_eq_self_iff hnodes).mpr ?_
      by_contra hchildren
      exact hi (.among hp ht hcs hnodes hchildren)

theorem Holds.page_loadingFinished (h : Holds id p t cs nodes r) : r.loadingFinished.page =
    changed r.loadingId .emptied (p.fill (.element t (cs ++ nodes))) := by
  rw [← h.page]
  rfl

theorem Holds.page_loadingFinished_of_isFirst (h : Holds id p t cs nodes r)
    (hp : p.IsFirst r.loadingId) (ht : t.id? ≠ some r.loadingId)
    (hfound : (withIdList? r.loadingId (cs ++ nodes)).isSome) : r.loadingFinished.page =
      p.fill (.element t (changed r.loadingId .emptied (cs ++ nodes))) := by
  rw [h.page_loadingFinished]
  refine Place.changed_fill_of_isFirst hp ?_ fun ns => ?_
  · rwa [Markup.Node.withId?_of_ne ht]
  · rw [Markup.Node.changed_element _ _ _ ns ht, if_pos hfound]

/-- A loading indicator that does not intrude is put away beside the nodes of the region. -/
theorem Holds.loadingFinished (h : Holds id p t cs nodes r) (hp : p.IsFirst id)
    (hi : ¬ Intrudes r.loadingId p t cs nodes) :
    ∃ p' cs', p'.IsFirst id ∧ Holds id p' t cs' nodes r.loadingFinished := by
  have ht (hfirst : p.IsFirst r.loadingId) : t.id? ≠ some r.loadingId :=
    fun ht => hi (.region hfirst ht)
  by_cases hfound : p.IsFirst r.loadingId ∧ (withIdList? r.loadingId (cs ++ nodes)).isSome
  · obtain ⟨hfirst, hfound⟩ := hfound
    obtain ⟨cs', hcs, hlength⟩ := exists_changed_children hfirst (ht hfirst) hi
    have hpage := h.page_loadingFinished_of_isFirst hfirst (ht hfirst) hfound
    rw [hcs] at hpage
    exact ⟨p, cs', hp, h.regionId, hpage, by rw [hlength]; exact h.range⟩
  · have hgap (hfirst : p.IsFirst r.loadingId) :
        (Node.element t (cs ++ nodes)).withId? r.loadingId = none := by
      rw [Markup.Node.withId?_of_ne (ht hfirst)]
      exact Option.not_isSome_iff_eq_none.mp fun hsome => hfound ⟨hfirst, hsome⟩
    obtain ⟨p', hc, hfirst⟩ :=
      Place.exists_changed_fill spares_loadingFinished (fun he => hi (.around he)) hgap
    exact ⟨p', cs, hfirst id hp, h.regionId, h.page_loadingFinished.trans hc, h.range⟩

/-- A loading indicator that intrudes takes something of the nodes with it. -/
theorem Holds.attached_loadingFinished_ne (h : Holds id p t cs nodes r) (hp : p.IsFirst id)
    (ht : t.id? = some id) (hlast : p.IsLast id) (hnodes : nodes ≠ [])
    (hi : Intrudes r.loadingId p t cs nodes) : r.loadingFinished.attached ≠ nodes := by
  have hrange : r.loadingFinished.range = some (cs.length, cs.length + nodes.length) :=
    h.range.resolve_left fun hr => hnodes hr.2
  have helement : r.loadingFinished.element? = withIdList? id r.loadingFinished.page := by
    rw [← h.regionId]
    rfl
  cases hi with
  | around he =>
    rw [h.page_loadingFinished, Place.withIdList?_changed_of_encloses he hp hlast] at helement
    simpa [PageRegion.attached, hrange, helement] using hnodes.symm
  | region hfirst hid =>
    rw [h.page_loadingFinished, Place.changed_fill hfirst hid, Markup.toNode_emptied,
      Place.withIdList?_fill hp ht] at helement
    simpa [PageRegion.attached, hrange, helement] using hnodes.symm
  | among hfirst hid hcs he hchildren =>
    have hfound : (withIdList? r.loadingId (cs ++ nodes)).isSome := by
      rw [Markup.Node.withIdList?_append, hcs, he]
      rfl
    have hpage := h.page_loadingFinished_of_isFirst hfirst hid hfound
    rw [Markup.Node.changed_append_of_none hcs] at hpage
    have hlength : (changed r.loadingId .emptied nodes).length = nodes.length :=
      (Markup.Node.inPlace_changed spares_loadingFinished.trims r.loadingId nodes).length_eq
    have hemptied : Holds id p t cs (changed r.loadingId .emptied nodes) r.loadingFinished :=
      ⟨h.regionId, hpage, .inr (by rw [hlength]; exact hrange)⟩
    rw [hemptied.attached hp ht]
    exact fun heq => hchildren ((Markup.Node.changed_emptied_eq_self_iff he).mp heq)

end Questionnaire.PageRegion

import Questionnaire.Proofs.Markup.Remnant
import Questionnaire.Proofs.Region.Calls

/-! # Page regions

Detaching takes out of a page what an attach has put there, and calls that
alternate put nothing else into it: without the attached nodes the page is a
remnant of what it was at first.
-/

namespace Questionnaire

open Markup (Node Remnant Trims Spares)
open Markup.Node (changed updateIdList? withIdList?)
open RegionCall (Turns moves replay)

namespace PageRegion

def put (nodes : List Node) (e : Markup.Element) : Markup.Element :=
  { e with children := e.children ++ nodes }

variable {r : PageRegion} {nodes : List Node}

theorem attach_of_none (h : r.element? = none) : (r.attach nodes).value = r := by
  simp [attach, h]

theorem value_attach {e : Markup.Element} (h : r.element? = some e) :
    (r.attach nodes).value = { r with
      page := changed r.regionId (put nodes) r.page
      range := some (r.range.elim e.children.length fun q => min q.1 e.children.length,
        e.children.length + nodes.length) } := by
  cases hr : r.range <;> simp only [attach, h, hr] <;> rfl

theorem attach_of_some {e : Markup.Element} (h : r.element? = some e) (hr : r.range = none) :
    (r.attach nodes).value = { r with
      page := changed r.regionId (put nodes) r.page
      range := some (e.children.length, e.children.length + nodes.length) } := by
  rw [value_attach h, hr, Option.elim_none]

theorem detach_of_none (h : r.range = none) : r.detach = r := by
  simp [detach, h]

theorem detach_of_some {start stop : Nat} (h : r.range = some (start, stop)) :
    r.detach = { r with
      page := changed r.regionId (.cutOut start stop) r.page
      range := none } := by
  simp only [detach, h]
  rfl

@[simp] theorem range_detach (r : PageRegion) : r.detach.range = none := by
  cases h : r.range with
  | none => rw [detach_of_none h, h]
  | some p => rw [detach_of_some h]

theorem cutOut_put (e : Markup.Element) :
    (put nodes e).cutOut e.children.length (e.children.length + nodes.length) = e := by
  simp [put, Markup.Element.cutOut]

theorem detach_attach (hr : r.range = none) : (r.attach nodes).value.detach = r := by
  cases he : r.element? with
  | none => rw [attach_of_none he, detach_of_none hr]
  | some e =>
    obtain ⟨ms, hm⟩ := Markup.Node.exists_updateIdList? (put nodes) he
    have hk : Markup.Node.KeepsId (put nodes) := fun _ => rfl
    have hc : changed r.regionId (put nodes) r.page = ms := by rw [changed, hm, Option.getD_some]
    have hu : updateIdList? r.regionId
        (.cutOut e.children.length (e.children.length + nodes.length)) ms =
        updateIdList? r.regionId (fun e => e) r.page := by
      rw [Markup.Node.updateIdList?_updateIdList? hk hm]
      exact Markup.Node.updateIdList?_congr he (cutOut_put e)
    obtain ⟨ns, hn⟩ := Markup.Node.exists_updateIdList? (fun e => e) he
    rw [attach_of_some he hr, detach_of_some rfl, hc, changed, hu, hn, Option.getD_some,
      Markup.Node.eq_of_updateIdList?_self hn, ← hr]

/-- Emptying or marking an element before detaching leaves nothing on the page that would not
be there without it. -/
theorem remnant_detach_updateElement {f : Markup.Element → Markup.Element} (hf : Spares f)
    (id : String) (r : PageRegion) :
    Remnant (r.updateElement f id).detach.page r.detach.page := by
  have hu : (r.updateElement f id).range = r.range := rfl
  cases hr : r.range with
  | none =>
    rw [detach_of_none hr, detach_of_none (hu.trans hr)]
    exact Markup.Node.remnant_changed hf.trims id r.page
  | some p =>
    rw [detach_of_some hr, detach_of_some (hu.trans hr)]
    exact Markup.Node.remnant_changed_cutOut hf r.regionId id p.1 p.2 r.page

theorem spares_loadingFinished : Spares fun e => { e with children := [] } where
  tag e := .refl e.tag
  children _ := .inl rfl

theorem spares_loadingFailed (message : String) : Spares fun e => { e with
    tag := (e.tag.setAttribute "data-state" "failed").setAttribute "title" message } where
  tag e := ⟨rfl, fun a hs ht => by
    rw [Markup.Tag.attribute?_setAttribute_of_ne ht, Markup.Tag.attribute?_setAttribute_of_ne hs]⟩
  children _ := .inr rfl

/-- A region of an earlier page: nothing is attached unless something is shown, and what is
not attached is a remnant of that page. -/
structure Keeps (page : List Node) (shown : Bool) (r : PageRegion) : Prop where
  range : shown = false → r.range = none
  remnant : Remnant r.detach.page page

variable {page : List Node} {shown : Bool}

theorem Keeps.attach (h : Keeps page false r) (nodes : List Node) :
    Keeps page true (r.attach nodes).value where
  range := nofun
  remnant := by
    have := h.remnant
    rwa [detach_attach (h.range rfl), ← detach_of_none (h.range rfl)]

theorem Keeps.detach (h : Keeps page shown r) : Keeps page false r.detach where
  range _ := r.range_detach
  remnant := by
    rw [detach_of_none r.range_detach]
    exact h.remnant

theorem Keeps.updateElement (h : Keeps page shown r) {f : Markup.Element → Markup.Element}
    (hf : Spares f) (id : String) : Keeps page shown (r.updateElement f id) where
  range := h.range
  remnant := (remnant_detach_updateElement hf id r).trans h.remnant

theorem Keeps.replay {shown shown' : Bool} {calls : List RegionCall}
    (ht : Turns shown (moves calls) shown') (h : Keeps page shown r) :
    Keeps page shown' (replay calls r) := by
  induction calls generalizing r shown with
  | nil =>
    cases ht
    exact h
  | cons c cs ih =>
    rw [RegionCall.moves_cons] at ht
    obtain ⟨u, hc, ht⟩ := ht.of_append
    refine ih ht ?_
    cases c with
    | attach nodes =>
      obtain _ | ⟨hm, ⟨⟩⟩ := hc
      obtain rfl : shown = false := by simpa using hm
      exact h.attach nodes
    | detach =>
      obtain _ | ⟨_, ⟨⟩⟩ := hc
      exact h.detach
    | loadingFinished =>
      cases hc
      exact h.updateElement spares_loadingFinished r.loadingId
    | loadingFailed error =>
      cases hc
      exact h.updateElement (spares_loadingFailed error.message) r.loadingId

theorem keeps_of_range (h : r.range = none) : Keeps r.page false r where
  range _ := h
  remnant := by
    rw [detach_of_none h]
    exact .refl _

end PageRegion

end Questionnaire

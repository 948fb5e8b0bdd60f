import Questionnaire.Proofs.Markup.Place

/-! # Visits

A visit hands every element of a document to a callback, in document order. The search for an id
and the change by an id stop at the first element of a visit that has the id, and the elements of a
class are those that a visit finds.
-/

namespace Questionnaire.Markup

namespace Node

variable {σ : Type} {f : Element → σ → Element × σ}

/-- A visit to all elements by a callback that may change an element and carries a state: the
document and the state in front of it and behind it. The children that the callback leaves in an
element are visited behind the element. One that always puts in more comes to no end, and then there
is no visit. -/
inductive Visits (f : Element → σ → Element × σ) : List Node → σ → List Node → σ → Prop
  | nil (s : σ) : Visits f [] s [] s
  | element {t : Tag} {cs ds ns ms : List Node} {e : Element} {s₀ s₁ s₂ s₃ : σ}
      (call : f ⟨t, cs⟩ s₀ = (e, s₁)) (inside : Visits f e.children s₁ ds s₂)
      (behind : Visits f ns s₂ ms s₃) :
      Visits f (.element t cs :: ns) s₀ (.element e.tag ds :: ms) s₃
  | leaf {n : Node} {ns ms : List Node} {s s' : σ} (hn : n.isElement = false)
      (behind : Visits f ns s ms s') : Visits f (n :: ns) s (n :: ms) s'

theorem Visits.unique {ns ms ms' : List Node} {s s₁ s₂ : σ} (h : Visits f ns s ms s₁)
    (h' : Visits f ns s ms' s₂) : ms' = ms ∧ s₂ = s₁ := by
  induction h generalizing ms' s₂ with
  | nil s =>
    cases h'
    exact ⟨rfl, rfl⟩
  | element call inside behind ihc ihn =>
    cases h' with
    | element call' inside' behind' =>
      obtain ⟨rfl, rfl⟩ := Prod.mk.inj (call.symm.trans call')
      obtain ⟨rfl, rfl⟩ := ihc inside'
      obtain ⟨rfl, rfl⟩ := ihn behind'
      exact ⟨rfl, rfl⟩
    | leaf hn => cases hn
  | leaf hn behind ih =>
    cases h' with
    | element => cases hn
    | leaf _ behind' =>
      obtain ⟨rfl, rfl⟩ := ih behind'
      exact ⟨rfl, rfl⟩

/-- A change of the tags of a document is a visit. -/
theorem visits_mapTags (g : Tag → Tag) (ns : List Node) (s : σ) :
    Visits (fun e s => (⟨g e.tag, e.children⟩, s)) ns s (Markup.mapTags g ns) s := by
  rw [Markup.mapTags]
  induction ns using list_induction with
  | nil => exact .nil s
  | element t cs ns ihc ihn =>
    rw [mapTagsList, mapTags]
    exact .element (e := ⟨g t, cs⟩) rfl ihc ihn
  | leaf n ns hn ih =>
    rw [mapTagsList, mapTags_leaf g hn]
    exact .leaf hn ih

/-- A callback that may change the tag of an element, and notes the elements that it is called
on. -/
def noting (g : Element → σ → Tag × σ) (e : Element) (p : List Element × σ) :
    Element × List Element × σ :=
  (⟨(g e p.2).1, e.children⟩, p.1 ++ [e], (g e p.2).2)

/-- A callback that leaves the children of an element as they are is called once on every element
of the document, in document order and with the element as it is there. -/
theorem exists_visits_noting (g : Element → σ → Tag × σ) (ns : List Node) (seen : List Element)
    (s : σ) : ∃ ms s', Visits (noting g) ns (seen, s) ms (seen ++ elementsList ns, s') := by
  induction ns using list_induction generalizing seen s with
  | nil => exact ⟨[], s, by simpa using Visits.nil (seen, s)⟩
  | element t cs ns ihc ihn =>
    obtain ⟨ds, s₂, inside⟩ := ihc (seen ++ [⟨t, cs⟩]) (g ⟨t, cs⟩ s).2
    obtain ⟨ms, s₃, behind⟩ := ihn (seen ++ [⟨t, cs⟩] ++ elementsList cs) s₂
    rw [elementsList_element, List.append_cons, ← List.append_assoc]
    exact ⟨_, s₃, .element rfl inside behind⟩
  | leaf n ns hn ih =>
    obtain ⟨ms, s', behind⟩ := ih seen s
    rw [elementsList_leaf hn]
    exact ⟨_, s', .leaf hn behind⟩

end Node

open Node

/-- The search for an id and the change by it mean the first element in document order that has the
id. The change leaves the rest of the document as it is, and what is made of the element is found
again if it keeps the id, whatever is in it. The elements of a class are, in their order, those that
a visit to all elements meets. -/
theorem update_changes_first_only (id : String) (f : Element → Element) (ns : List Node) :
    elementById? id ns = (elementsList ns).find? (·.tag.id? = some id) ∧
      (updateById? id f ns).isSome = (elementById? id ns).isSome ∧
      (∀ e, elementById? id ns = some e → ∃ p : Place, ns = p.fill e.toNode ∧ p.IsFirst id ∧
        updateById? id f ns = some (p.fill (f e).toNode) ∧
        ((f e).tag.id? = some id → elementById? id (p.fill (f e).toNode) = some (f e))) ∧
      ∀ name (σ : Type) (g : Element → σ → Tag × σ) (s : σ), ∃ ms seen s',
        (∀ ms' p, Visits (noting g) ns ([], s) ms' p ↔ ms' = ms ∧ p = (seen, s')) ∧
        seen = elementsList ns ∧ elementsByClass name ns = seen.filter (·.tag.hasClass name) := by
  refine ⟨withIdList?_eq_find? id ns, ?_, fun e he => ?_, fun name σ g s => ?_⟩
  · cases hw : elementById? id ns with
    | none =>
      rw [updateById?, updateIdList?_eq_none_iff.mpr hw, Option.isSome_none, Option.isSome_none]
    | some e =>
      obtain ⟨ms, hms⟩ := exists_updateIdList? f hw
      rw [updateById?, hms, Option.isSome_some, Option.isSome_some]
  · obtain ⟨p, rfl, ht, hp⟩ := Place.exists_fill he
    obtain ⟨ms, hms⟩ := exists_updateIdList? f he
    have hfill : changed id f (p.fill e.toNode) = p.fill (f e).toNode :=
      Place.changed_fill hp ht f e.children
    rw [changed, hms, Option.getD_some] at hfill
    exact ⟨p, rfl, hp, hms.trans (congrArg some hfill),
      fun hid => Place.withIdList?_fill hp hid (f e).children⟩
  · obtain ⟨ms, s', h⟩ := exists_visits_noting g ns [] s
    refine ⟨ms, elementsList ns, s', fun ms' p => ⟨h.unique, ?_⟩, rfl, rfl⟩
    rintro ⟨rfl, rfl⟩
    exact h

/-- The id is found at an element inside of another one, and what the change puts into it has the
id once more. -/
theorem update_keeps_nested_id :
    let inner : Element := ⟨⟨"p", [("id", some "x")]⟩, [.text "1"]⟩
    let ns : List Node := [.text "0", .element ⟨"div", [("id", none)]⟩ [inner.toNode],
      .element ⟨"i", [("id", some "x")]⟩ []]
    let f (e : Element) : Element := { e with children := inner.toNode :: e.children }
    elementById? "x" ns = some inner ∧ (f inner).tag.id? = some "x" ∧
      ∃ p : Place, ns = p.fill inner.toNode ∧
        updateById? "x" f ns = some (p.fill (f inner).toNode) ∧
        elementById? "x" (p.fill (f inner).toNode) = some (f inner) := by
  intro inner ns f
  have hfound : elementById? "x" ns = some inner := rfl
  have hid : (f inner).tag.id? = some "x" := rfl
  obtain ⟨p, hns, -, hms, hagain⟩ := (update_changes_first_only "x" f ns).2.2.1 inner hfound
  exact ⟨hfound, hid, p, hns, hms, hagain hid⟩

end Questionnaire.Markup

import Questionnaire.Proofs.Markup.Remnant

/-! # Places in a document

A place is a document with a gap for a node. The first element of an id stands where
no element in front of the gap or around it has the id: it is the one that is found
and changed, and the rest of the document stays as it is.
-/

namespace Questionnaire.Markup

open Node

/-- A gap at the head of a list of nodes, behind a node, or inside an element. -/
inductive Place where
  | head (rest : List Node)
  | behind (n : Node) (place : Place)
  | inside (tag : Tag) (place : Place) (rest : List Node)

namespace Place

def fill (m : Node) : Place → List Node
  | head rest => m :: rest
  | behind n p => n :: p.fill m
  | inside tag p rest => .element tag (p.fill m) :: rest

/-- The tags that are visited before the gap, those of the elements around it included. -/
def tagsBefore : Place → List Tag
  | head _ => []
  | behind n p => n.elements.map Element.tag ++ p.tagsBefore
  | inside tag p _ => tag :: p.tagsBefore

/-- An element of the id in the gap is the first one of the document. -/
def IsFirst (id : String) (p : Place) : Prop := ∀ t ∈ p.tagsBefore, t.id? ≠ some id

end Place

namespace Node

variable {id : String} {n : Node}

theorem withId?_eq_none_iff : n.withId? id = none ↔ ∀ e ∈ n.elements, e.tag.id? ≠ some id := by
  have h : withIdList? id [n] = none ↔ _ := withIdList?_eq_none_iff
  simpa [withIdList?, elementsList] using h

theorem withIdList?_cons_of_none (h : n.withId? id = none) (ns : List Node) :
    withIdList? id (n :: ns) = withIdList? id ns := by
  simp [withIdList?, h]

theorem changed_cons_of_none (f : Element → Element) (h : n.withId? id = none) (ns : List Node) :
    changed id f (n :: ns) = n :: changed id f ns := by
  cases n with
  | element t cs =>
    rw [withId?] at h
    split at h
    · cases h
    · next ht =>
      rw [changed_element id f cs ns ht, h]
      rfl
  | _ => exact changed_leaf id f ns rfl

end Node

namespace Place

variable {id : String} {p : Place} {t : Tag}

theorem isFirst_head (id : String) (rest : List Node) : (head rest).IsFirst id := by
  intro t ht
  cases ht

theorem isFirst_behind {n : Node} :
    (behind n p).IsFirst id ↔ n.withId? id = none ∧ p.IsFirst id := by
  simp [IsFirst, tagsBefore, withId?_eq_none_iff, or_imp, forall_and]

theorem isFirst_inside {rest : List Node} :
    (inside t p rest).IsFirst id ↔ t.id? ≠ some id ∧ p.IsFirst id := by
  simp [IsFirst, tagsBefore]

theorem withIdList?_fill (hp : p.IsFirst id) (ht : t.id? = some id) (cs : List Node) :
    withIdList? id (p.fill (.element t cs)) = some ⟨t, cs⟩ := by
  induction p with
  | head rest => rw [fill, withIdList?_element, if_pos ht]
  | behind n p ih =>
    obtain ⟨hn, hp⟩ := isFirst_behind.mp hp
    rw [fill, withIdList?_cons_of_none hn, ih hp]
  | inside tag p rest ih =>
    obtain ⟨htag, hp⟩ := isFirst_inside.mp hp
    rw [fill, withIdList?_element, if_neg htag, ih hp, Option.some_or]

/-- The first element of an id is the one that is changed, and nothing else is. -/
theorem changed_fill (hp : p.IsFirst id) (ht : t.id? = some id) (f : Element → Element)
    (cs : List Node) :
    changed id f (p.fill (.element t cs)) = p.fill (f ⟨t, cs⟩).toNode := by
  induction p with
  | head rest => rw [fill, fill, changed_element_of_id id f cs rest ht]
  | behind n p ih =>
    obtain ⟨hn, hp⟩ := isFirst_behind.mp hp
    rw [fill, fill, changed_cons_of_none f hn, ih hp]
  | inside tag p rest ih =>
    obtain ⟨htag, hp⟩ := isFirst_inside.mp hp
    rw [fill, fill, changed_element id f _ rest htag, withIdList?_fill hp ht, ih hp]
    rfl

/-- The first element of an id has one place. -/
theorem eq_of_fill {p' : Place} {t' : Tag} {cs cs' : List Node} (hp : p.IsFirst id)
    (ht : t.id? = some id) (hp' : p'.IsFirst id) (ht' : t'.id? = some id)
    (h : p.fill (.element t cs) = p'.fill (.element t' cs')) : p = p' ∧ t = t' ∧ cs = cs' := by
  have hfound := withIdList?_fill hp ht cs
  rw [h, withIdList?_fill hp' ht'] at hfound
  obtain ⟨rfl, rfl⟩ := Element.mk.inj (Option.some.inj hfound)
  refine ⟨?_, rfl, rfl⟩
  -- where the places part, one of them has the element in front of its gap or around it
  induction p generalizing p' with
  | head rest =>
    cases p' with
    | head rest' => rw [(List.cons.inj h).2]
    | behind n q =>
      obtain ⟨hn, -⟩ := isFirst_behind.mp hp'
      rw [← (List.cons.inj h).1, withId?, if_pos ht] at hn
      cases hn
    | inside tag q rest' =>
      obtain ⟨rfl, -⟩ := Node.element.inj (List.cons.inj h).1
      exact absurd ht (isFirst_inside.mp hp').1
  | behind n q ih =>
    obtain ⟨hn, hq⟩ := isFirst_behind.mp hp
    cases p' with
    | head rest' =>
      rw [(List.cons.inj h).1, withId?, if_pos ht] at hn
      cases hn
    | behind n' q' =>
      obtain ⟨rfl, hfill⟩ := List.cons.inj h
      rw [ih hq (isFirst_behind.mp hp').2 hfill]
    | inside tag q' rest' =>
      obtain ⟨htag, hq'⟩ := isFirst_inside.mp hp'
      rw [(List.cons.inj h).1, withId?, if_neg htag, withIdList?_fill hq' ht] at hn
      cases hn
  | inside tag q rest ih =>
    obtain ⟨htag, hq⟩ := isFirst_inside.mp hp
    cases p' with
    | head rest' =>
      obtain ⟨rfl, -⟩ := Node.element.inj (List.cons.inj h).1
      exact absurd ht htag
    | behind n' q' =>
      obtain ⟨hn', -⟩ := isFirst_behind.mp hp'
      rw [← (List.cons.inj h).1, withId?, if_neg htag, withIdList?_fill hq ht] at hn'
      cases hn'
    | inside tag' q' rest' =>
      obtain ⟨hnode, rfl⟩ := List.cons.inj h
      obtain ⟨rfl, hfill⟩ := Node.element.inj hnode
      rw [ih hq (isFirst_inside.mp hp').2 hfill]

theorem exists_fill {ns : List Node} {e : Element} (h : withIdList? id ns = some e) :
    ∃ p : Place, ns = p.fill e.toNode ∧ e.tag.id? = some id ∧ p.IsFirst id := by
  induction ns using list_induction generalizing e with
  | nil => simp at h
  | element t cs ns ihc ihn =>
    rw [withIdList?_element] at h
    split at h
    · next ht =>
      obtain rfl := Option.some.inj h
      exact ⟨.head ns, rfl, ht, isFirst_head id ns⟩
    · next ht =>
      rcases Option.or_eq_some_iff.mp h with hc | ⟨hc, hn⟩
      · obtain ⟨p, rfl, he, hp⟩ := ihc hc
        exact ⟨.inside t p ns, rfl, he, isFirst_inside.mpr ⟨ht, hp⟩⟩
      · obtain ⟨p, rfl, he, hp⟩ := ihn hn
        have ht : (element t cs).withId? id = none := by simp [withId?, ht, hc]
        exact ⟨.behind (.element t cs) p, rfl, he, isFirst_behind.mpr ⟨ht, hp⟩⟩
  | leaf n ns hn ih =>
    rw [withIdList?_leaf _ _ hn] at h
    obtain ⟨p, rfl, he, hp⟩ := ih h
    have hw : n.withId? id = none := by cases n <;> simp_all [withId?, isElement]
    exact ⟨.behind n p, rfl, he, isFirst_behind.mpr ⟨hw, hp⟩⟩

end Place

end Questionnaire.Markup

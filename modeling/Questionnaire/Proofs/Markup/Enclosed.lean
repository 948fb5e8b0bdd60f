import Questionnaire.Proofs.Markup.Place

/-! # Changes around a place

A change by an id meets a place in one of three ways: the first element of the id lies
around the gap, or it is found in the node that fills it, or it lies elsewhere. Elsewhere
the same node stands in a place of the changed document, and an emptied element around the
gap leaves nothing of the node.
-/

namespace Questionnaire.Markup

open Node

def Element.emptied (e : Element) : Element := { e with children := [] }

theorem toNode_emptied (t : Tag) (cs : List Node) :
    (Element.emptied ⟨t, cs⟩).toNode = .element t [] := rfl

namespace Node

variable {id : String} {f : Element → Element} {n : Node} {ms : List Node}

theorem withId?_of_ne {t : Tag} (ht : t.id? ≠ some id) (cs : List Node) :
    (element t cs).withId? id = withIdList? id cs := by
  rw [withId?, if_neg ht]

theorem exists_changed_cons_of_some (f : Element → Element) (h : (n.withId? id).isSome) :
    ∃ n', ∀ ns, changed id f (n :: ns) = n' :: ns := by
  cases n with
  | element t cs =>
    by_cases ht : t.id? = some id
    · exact ⟨_, fun ns => changed_element_of_id id f cs ns ht⟩
    · rw [withId?_of_ne ht] at h
      refine ⟨.element t (changed id f cs), fun ns => ?_⟩
      rw [changed_element id f cs ns ht, if_pos h]
  | _ => cases h

theorem changed_append_of_some (h : (withIdList? id ms).isSome) (ns : List Node) :
    changed id f (ms ++ ns) = changed id f ms ++ ns := by
  induction ms with
  | nil => cases h
  | cons m ms ih =>
    rw [List.cons_append]
    cases hm : m.withId? id with
    | some e =>
      obtain ⟨m', hc⟩ := exists_changed_cons_of_some f (Option.isSome_of_eq_some hm)
      rw [hc, hc, List.cons_append]
    | none =>
      rw [withIdList?_cons_of_none hm] at h
      rw [changed_cons_of_none f hm, changed_cons_of_none f hm, ih h, List.cons_append]

theorem changed_append_of_none (h : withIdList? id ms = none) (ns : List Node) :
    changed id f (ms ++ ns) = ms ++ changed id f ns := by
  induction ms with
  | nil => rfl
  | cons m ms ih =>
    obtain ⟨hm, hms⟩ : m.withId? id = none ∧ withIdList? id ms = none := by
      simpa [withIdList?] using h
    rw [List.cons_append, changed_cons_of_none f hm, ih hms, List.cons_append]

theorem withIdList?_append (id : String) (ms ns : List Node) :
    withIdList? id (ms ++ ns) = (withIdList? id ms).or (withIdList? id ns) := by
  induction ms with
  | nil => rfl
  | cons m ms ih =>
    rw [List.cons_append, withIdList?, withIdList?, ih]
    cases m.withId? id <;> rfl

theorem changed_emptied_eq_self_iff {ns : List Node} {e : Element}
    (h : withIdList? id ns = some e) : changed id .emptied ns = ns ↔ e.children = [] := by
  obtain ⟨p, rfl, ht, hp⟩ := Place.exists_fill h
  rw [Element.toNode, Place.changed_fill hp ht, toNode_emptied]
  constructor
  · intro hfill
    have hfound := congrArg (withIdList? id) hfill
    rw [Place.withIdList?_fill hp ht, Place.withIdList?_fill hp ht] at hfound
    exact (congrArg Element.children (Option.some.inj hfound)).symm
  · intro hchildren
    rw [hchildren]

end Node

namespace Place

variable {id : String} {p : Place} {m : Node} {f : Element → Element}

/-- The first element of the id lies around the gap. -/
def Encloses (id : String) : Place → Prop
  | head _ => False
  | behind n p => n.withId? id = none ∧ p.Encloses id
  | inside tag p _ => tag.id? = some id ∨ p.Encloses id

def tagsBehind : Place → List Tag
  | head rest => (elementsList rest).map Element.tag
  | behind _ p => p.tagsBehind
  | inside _ p rest => p.tagsBehind ++ (elementsList rest).map Element.tag

/-- No element of the id comes after the node in the gap. -/
def IsLast (id : String) (p : Place) : Prop := ∀ t ∈ p.tagsBehind, t.id? ≠ some id

theorem isLast_inside {tag : Tag} {rest : List Node} :
    (inside tag p rest).IsLast id ↔ p.IsLast id ∧ withIdList? id rest = none := by
  simp [IsLast, tagsBehind, withIdList?_eq_none_iff, or_imp, forall_and]

theorem isSome_withIdList?_of_encloses (h : p.Encloses id) (m : Node) :
    (withIdList? id (p.fill m)).isSome := by
  induction p with
  | head rest => cases h
  | behind n p ih => rw [fill, withIdList?_cons_of_none h.1]; exact ih h.2
  | inside tag p rest ih =>
    rw [fill, isSome_withIdList?_element]
    exact h.imp_right fun h => .inl (ih h)

theorem isSome_withIdList?_fill (hp : p.IsFirst id) (hm : (m.withId? id).isSome) :
    (withIdList? id (p.fill m)).isSome := by
  induction p with
  | head rest =>
    obtain ⟨e, he⟩ := Option.isSome_iff_exists.mp hm
    simp [fill, withIdList?, he]
  | behind n p ih =>
    obtain ⟨hn, hp⟩ := isFirst_behind.mp hp
    rw [fill, withIdList?_cons_of_none hn]
    exact ih hp
  | inside tag p rest ih =>
    rw [fill, isSome_withIdList?_element]
    exact .inr (.inl (ih (isFirst_inside.mp hp).2))

theorem changed_fill_of_isFirst {m' : Node} (hp : p.IsFirst id) (hm : (m.withId? id).isSome)
    (hc : ∀ ns, changed id f (m :: ns) = m' :: ns) :
    changed id f (p.fill m) = p.fill m' := by
  induction p with
  | head rest => exact hc rest
  | behind n p ih =>
    obtain ⟨hn, hp⟩ := isFirst_behind.mp hp
    rw [fill, changed_cons_of_none f hn, ih hp, fill]
  | inside tag p rest ih =>
    obtain ⟨htag, hp⟩ := isFirst_inside.mp hp
    rw [fill, changed_element id f _ rest htag, if_pos (isSome_withIdList?_fill hp hm), ih hp, fill]

/-- A change neither around the gap nor in it leaves the node in a place of its own, before
which no id has come up. -/
theorem exists_changed_fill (hf : Spares f) (he : ¬ p.Encloses id)
    (hm : p.IsFirst id → m.withId? id = none) :
    ∃ p' : Place, changed id f (p.fill m) = p'.fill m ∧
      ∀ id', p.IsFirst id' → p'.IsFirst id' := by
  induction p with
  | head rest =>
    refine ⟨.head (changed id f rest), ?_, fun id' _ => isFirst_head id' _⟩
    rw [fill, changed_cons_of_none f (hm (isFirst_head id rest)), fill]
  | behind n p ih =>
    cases hn : n.withId? id with
    | some e =>
      obtain ⟨n', hc⟩ := exists_changed_cons_of_some f (Option.isSome_of_eq_some hn)
      refine ⟨.behind n' p, hc _, fun id' hfirst => ?_⟩
      obtain ⟨hn', hp⟩ := isFirst_behind.mp hfirst
      refine isFirst_behind.mpr ⟨?_, hp⟩
      have hkeep : (withIdList? id' (changed id f [n])).isSome → (withIdList? id' [n]).isSome :=
        isSome_withIdList?_of_changed hf id
      rw [hc] at hkeep
      simpa [withIdList?, hn'] using hkeep
    | none =>
      obtain ⟨p', hc, hfirst⟩ := ih (fun h => he ⟨hn, h⟩) fun hp => hm (isFirst_behind.mpr ⟨hn, hp⟩)
      refine ⟨.behind n p', ?_, fun id' h => ?_⟩
      · rw [fill, changed_cons_of_none f hn, hc, fill]
      · obtain ⟨hn', hp⟩ := isFirst_behind.mp h
        exact isFirst_behind.mpr ⟨hn', hfirst id' hp⟩
  | inside tag p rest ih =>
    obtain ⟨htag, he⟩ := not_or.mp he
    rw [fill, changed_element id f _ rest htag]
    split
    · obtain ⟨p', hc, hfirst⟩ := ih he fun hp => hm (isFirst_inside.mpr ⟨htag, hp⟩)
      refine ⟨.inside tag p' rest, by rw [hc, fill], fun id' h => ?_⟩
      obtain ⟨htag', hp⟩ := isFirst_inside.mp h
      exact isFirst_inside.mpr ⟨htag', hfirst id' hp⟩
    · exact ⟨.inside tag p (changed id f rest), rfl, fun id' h => h⟩

theorem withIdList?_changed_of_encloses {id' : String} (h : p.Encloses id)
    (hfirst : p.IsFirst id') (hlast : p.IsLast id') :
    withIdList? id' (changed id .emptied (p.fill m)) = none := by
  induction p with
  | head rest => cases h
  | behind n p ih =>
    obtain ⟨hn', hfirst⟩ := isFirst_behind.mp hfirst
    rw [fill, changed_cons_of_none _ h.1, withIdList?_cons_of_none hn']
    exact ih h.2 hfirst hlast
  | inside tag p rest ih =>
    obtain ⟨htag', hfirst⟩ := isFirst_inside.mp hfirst
    obtain ⟨hlast, hrest⟩ := isLast_inside.mp hlast
    by_cases htag : tag.id? = some id
    · rw [fill, changed_element_of_id id _ _ rest htag, toNode_emptied, withIdList?_element,
        if_neg htag', withIdList?_nil, Option.none_or, hrest]
    · have h : p.Encloses id := h.resolve_left htag
      rw [fill, changed_element id _ _ rest htag, if_pos (isSome_withIdList?_of_encloses h m),
        withIdList?_element, if_neg htag', ih h hfirst hlast, Option.none_or, hrest]

end Place

end Questionnaire.Markup

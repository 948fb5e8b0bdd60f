import Questionnaire.Markup.Lookup
import Questionnaire.Proofs.Text.Words
import Questionnaire.Table

/-! # The element of an id

The search for an id and the change by an id mean the same element. Changes by
one id that keep it are done one after another as one change.
-/

namespace Questionnaire.Markup

namespace Tag

theorem attribute?_setAttribute_of_ne {t : Tag} {a name value : String} (h : a ≠ name) :
    (t.setAttribute name value).attribute? a = t.attribute? a := by
  simp only [attribute?, setAttribute]
  congr 1
  induction t.attributes with
  | nil => simp [putAttribute, lookup_cons_eq, h]
  | cons b bs ih =>
    simp only [putAttribute]
    split
    · next hb => simp [lookup_cons_eq, h, hb]
    · simp [lookup_cons_eq, ih]

theorem attribute?_setAttribute_self (t : Tag) (name value : String) :
    (t.setAttribute name value).attribute? name = some value := by
  simp only [attribute?, setAttribute]
  induction t.attributes with
  | nil => simp [putAttribute]
  | cons b bs ih =>
    simp only [putAttribute]
    split
    · simp
    · next hb => rwa [lookup_cons_eq, if_neg (Ne.symm hb)]

theorem hasClass_iff {t : Tag} {name : String} : t.hasClass name ↔
    ∃ classes, t.attribute? "class" = some classes ∧
      Text.IsWord name.toList classes.toList := by
  cases h : t.attribute? "class" with
  | none => simp [hasClass, h]
  | some classes => simp [hasClass, h, Text.mem_words_iff]

theorem hasClass_setAttribute_of_ne {t : Tag} {name : String} (h : name ≠ "class")
    (value cls : String) : (t.setAttribute name value).hasClass cls = t.hasClass cls := by
  rw [hasClass, attribute?_setAttribute_of_ne h.symm, hasClass]

end Tag

namespace Node

def isElement : Node → Bool
  | element _ _ => true
  | _ => false

/-- Induction over the nodes of a list and the children of its elements. -/
@[elab_as_elim]
theorem list_induction {P : List Node → Prop} (nil : P [])
    (element : ∀ t cs ns, P cs → P ns → P (.element t cs :: ns))
    (leaf : ∀ n ns, n.isElement = false → P ns → P (n :: ns)) : ∀ ns, P ns
  | [] => nil
  | .element t cs :: ns =>
    element t cs ns (list_induction nil element leaf cs) (list_induction nil element leaf ns)
  | .text s :: ns => leaf (.text s) ns rfl (list_induction nil element leaf ns)
  | .comment s :: ns => leaf (.comment s) ns rfl (list_induction nil element leaf ns)
  | .declaration s :: ns => leaf (.declaration s) ns rfl (list_induction nil element leaf ns)

section Equations

variable (id : String) (f : Element → Element) (t : Tag) (cs ns : List Node)

@[simp] theorem withIdList?_nil : withIdList? id [] = none := rfl

theorem withIdList?_element : withIdList? id (element t cs :: ns) =
    if t.id? = some id then some ⟨t, cs⟩ else (withIdList? id cs).or (withIdList? id ns) := by
  simp only [withIdList?, withId?]
  split
  · rfl
  · cases withIdList? id cs <;> rfl

theorem withIdList?_leaf {n : Node} (h : n.isElement = false) :
    withIdList? id (n :: ns) = withIdList? id ns := by
  cases n <;> simp_all [withIdList?, withId?, isElement]

theorem isSome_withIdList?_element : (withIdList? id (element t cs :: ns)).isSome ↔
    t.id? = some id ∨ (withIdList? id cs).isSome ∨ (withIdList? id ns).isSome := by
  rw [withIdList?_element]
  split
  · simp [*]
  · simp [*, Option.isSome_or]

@[simp] theorem updateIdList?_nil : updateIdList? id f [] = none := rfl

theorem updateIdList?_element : updateIdList? id f (element t cs :: ns) =
    if t.id? = some id then some ((f ⟨t, cs⟩).toNode :: ns)
    else match updateIdList? id f cs with
      | some ds => some (element t ds :: ns)
      | none => (updateIdList? id f ns).map (element t cs :: ·) := by
  simp only [updateIdList?, updateId?]
  by_cases h : t.id? = some id
  · simp [h]
  · cases updateIdList? id f cs <;> simp [h]

theorem updateIdList?_leaf {n : Node} (h : n.isElement = false) :
    updateIdList? id f (n :: ns) = (updateIdList? id f ns).map (n :: ·) := by
  cases n <;> simp_all [updateIdList?, updateId?, isElement]

end Equations

/-- A change keeps the id of the elements it is made of. -/
def KeepsId (f : Element → Element) : Prop := ∀ e, (f e).tag.id? = e.tag.id?

variable {id : String} {f g : Element → Element} {ns ms : List Node}

theorem updateIdList?_eq_none_iff :
    updateIdList? id f ns = none ↔ withIdList? id ns = none := by
  induction ns using list_induction with
  | nil => simp
  | element t cs ns ihc ihn =>
    rw [updateIdList?_element, withIdList?_element]
    split
    · simp
    · cases hc : updateIdList? id f cs <;> cases hw : withIdList? id cs <;> simp_all
  | leaf n ns hn ih => rw [updateIdList?_leaf _ _ _ hn, withIdList?_leaf _ _ hn, ← ih]; simp

theorem exists_updateIdList? (f : Element → Element) {e : Element}
    (h : withIdList? id ns = some e) : ∃ ms, updateIdList? id f ns = some ms := by
  cases hu : updateIdList? id f ns with
  | none => simp [updateIdList?_eq_none_iff.mp hu] at h
  | some ms => exact ⟨ms, rfl⟩

theorem exists_withIdList? (h : updateIdList? id f ns = some ms) :
    ∃ e, withIdList? id ns = some e := by
  cases hw : withIdList? id ns with
  | none => simp [updateIdList?_eq_none_iff.mpr hw] at h
  | some e => exact ⟨e, rfl⟩

theorem updateIdList?_congr {e : Element} (he : withIdList? id ns = some e) (h : f e = g e) :
    updateIdList? id f ns = updateIdList? id g ns := by
  induction ns using list_induction with
  | nil => rfl
  | element t cs ns ihc ihn =>
    rw [withIdList?_element] at he
    rw [updateIdList?_element, updateIdList?_element]
    split at he
    · next ht =>
      obtain rfl := Option.some.inj he
      rw [if_pos ht, if_pos ht, h]
    · next ht =>
      rw [if_neg ht, if_neg ht]
      cases hc : withIdList? id cs with
      | none =>
        rw [hc, Option.none_or] at he
        rw [updateIdList?_eq_none_iff.mpr hc, updateIdList?_eq_none_iff.mpr hc, ihn he]
      | some e' =>
        rw [hc, Option.some_or] at he
        obtain ⟨ds, hd⟩ := exists_updateIdList? g hc
        rw [ihc (hc.trans he), hd]
  | leaf n ns hn ih =>
    rw [withIdList?_leaf _ _ hn] at he
    rw [updateIdList?_leaf _ _ _ hn, updateIdList?_leaf _ _ _ hn, ih he]

theorem eq_of_updateIdList?_self (h : updateIdList? id (fun e => e) ns = some ms) : ms = ns := by
  induction ns using list_induction generalizing ms with
  | nil => simp at h
  | element t cs ns ihc ihn =>
    rw [updateIdList?_element] at h
    split at h
    · exact (Option.some.inj h).symm
    · cases hc : updateIdList? id (fun e => e) cs with
      | some ds =>
        rw [hc] at h
        rw [← Option.some.inj h, ihc hc]
      | none =>
        rw [hc] at h
        obtain ⟨ms', hm, rfl⟩ := Option.map_eq_some_iff.mp h
        rw [ihn hm]
  | leaf n ns hn ih =>
    rw [updateIdList?_leaf _ _ _ hn] at h
    obtain ⟨ms', hm, rfl⟩ := Option.map_eq_some_iff.mp h
    rw [ih hm]

/-- Two changes by one id, the first of which keeps it, are one change. -/
theorem updateIdList?_updateIdList? (hf : KeepsId f) (h : updateIdList? id f ns = some ms) :
    updateIdList? id g ms = updateIdList? id (fun e => g (f e)) ns := by
  induction ns using list_induction generalizing ms with
  | nil => simp at h
  | element t cs ns ihc ihn =>
    rw [updateIdList?_element] at h
    split at h
    · next ht =>
      obtain rfl := Option.some.inj h
      have ht' : (f ⟨t, cs⟩).tag.id? = some id := (hf _).trans ht
      rw [Element.toNode, updateIdList?_element, updateIdList?_element, if_pos ht, if_pos ht']
    · next ht =>
      cases hc : updateIdList? id f cs with
      | some ds =>
        rw [hc] at h
        obtain rfl := Option.some.inj h
        obtain ⟨e, he⟩ := exists_withIdList? hc
        obtain ⟨ds', hd⟩ := exists_updateIdList? (fun e => g (f e)) he
        rw [updateIdList?_element, updateIdList?_element, if_neg ht, if_neg ht, ihc hc, hd]
      | none =>
        rw [hc] at h
        obtain ⟨ms', hm, rfl⟩ := Option.map_eq_some_iff.mp h
        have hw := updateIdList?_eq_none_iff.mp hc
        rw [updateIdList?_element, updateIdList?_element, if_neg ht, if_neg ht,
          updateIdList?_eq_none_iff.mpr hw, updateIdList?_eq_none_iff.mpr hw, ihn hm]
  | leaf n ns hn ih =>
    rw [updateIdList?_leaf _ _ _ hn] at h
    obtain ⟨ms', hm, rfl⟩ := Option.map_eq_some_iff.mp h
    rw [updateIdList?_leaf _ _ _ hn, updateIdList?_leaf _ _ _ hn, ih hm]

section Elements

variable (t : Tag) (cs : List Node)

@[simp] theorem elementsList_nil : elementsList [] = [] := rfl

@[simp] theorem elementsList_element (ns : List Node) :
    elementsList (element t cs :: ns) = ⟨t, cs⟩ :: (elementsList cs ++ elementsList ns) := rfl

theorem elementsList_leaf {n : Node} (h : n.isElement = false) (ns : List Node) :
    elementsList (n :: ns) = elementsList ns := by
  cases n <;> simp_all [elementsList, elements, isElement]

theorem mapTags_leaf (g : Tag → Tag) {n : Node} (h : n.isElement = false) : n.mapTags g = n := by
  cases n with
  | element t cs => cases h
  | _ => rfl

theorem elementsList_mapTagsList (g : Tag → Tag) (ns : List Node) :
    elementsList (mapTagsList g ns) =
      (elementsList ns).map fun e => ⟨g e.tag, mapTagsList g e.children⟩ := by
  induction ns using list_induction with
  | nil => rfl
  | element t cs ns ihc ihn =>
    rw [mapTagsList, mapTags, elementsList_element, elementsList_element, ihc, ihn, List.map_cons,
      List.map_append]
  | leaf n ns hn ih =>
    rw [mapTagsList, mapTags_leaf g hn, elementsList_leaf hn, elementsList_leaf hn, ih]

end Elements

theorem withIdList?_eq_find? (id : String) (ns : List Node) :
    withIdList? id ns = (elementsList ns).find? (·.tag.id? = some id) := by
  induction ns using list_induction with
  | nil => rfl
  | element t cs ns ihc ihn =>
    rw [withIdList?_element, elementsList_element, List.find?_cons, List.find?_append, ihc, ihn]
    split <;> simp_all
  | leaf n ns hn ih => rw [withIdList?_leaf _ _ hn, elementsList_leaf hn, ih]

theorem withIdList?_eq_none_iff :
    withIdList? id ns = none ↔ ∀ e ∈ elementsList ns, e.tag.id? ≠ some id := by
  simp [withIdList?_eq_find?]

end Node

end Questionnaire.Markup

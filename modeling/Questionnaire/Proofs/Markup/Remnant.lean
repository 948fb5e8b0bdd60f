import Questionnaire.Proofs.Markup.Lookup
import Mathlib.Data.List.Forall2

/-! # Remnants

A remnant is what is left of a document when nodes have been taken out of it. A
tag may have got the marks of a failed loading. Emptying an element leaves a
remnant, and so does cutting children out of an element by their places, also
after another element has been emptied.
-/

namespace Questionnaire.Markup

open Node

/-- The tags differ at most in the marks of a failed loading. -/
structure Tag.SameButMarks (t u : Tag) : Prop where
  name : t.name = u.name
  attribute? : ∀ a, a ≠ "data-state" → a ≠ "title" → t.attribute? a = u.attribute? a

namespace Tag.SameButMarks

variable {t u v : Tag}

theorem refl (t : Tag) : t.SameButMarks t := ⟨rfl, fun _ _ _ => rfl⟩

theorem trans (h : t.SameButMarks u) (h' : u.SameButMarks v) : t.SameButMarks v :=
  ⟨h.name.trans h'.name, fun a hs ht => (h.attribute? a hs ht).trans (h'.attribute? a hs ht)⟩

theorem id? (h : t.SameButMarks u) : t.id? = u.id? := h.attribute? "id" (by decide) (by decide)

end Tag.SameButMarks

inductive Remnant : List Node → List Node → Prop where
  | nil : Remnant [] []
  | drop (n : Node) {ms ns : List Node} : Remnant ms ns → Remnant ms (n :: ns)
  | keep (n : Node) {ms ns : List Node} : Remnant ms ns → Remnant (n :: ms) (n :: ns)
  | element {t u : Tag} {cs ds ms ns : List Node} : t.SameButMarks u → Remnant cs ds →
      Remnant ms ns → Remnant (.element t cs :: ms) (.element u ds :: ns)

namespace Remnant

variable {ks ls ms ns : List Node}

theorem nil_left : ∀ ns, Remnant [] ns
  | [] => .nil
  | n :: ns => .drop n (nil_left ns)

theorem refl : ∀ ns, Remnant ns ns
  | [] => .nil
  | n :: ns => .keep n (refl ns)

theorem trans (h : Remnant ks ms) (h' : Remnant ms ns) : Remnant ks ns := by
  induction h' generalizing ks with
  | nil => exact h
  | drop n _ ih => exact .drop n (ih h)
  | keep n _ ih =>
    cases h with
    | drop _ h => exact .drop _ (ih h)
    | keep _ h => exact .keep _ (ih h)
    | element ht hc h => exact .element ht hc (ih h)
  | element hu _ _ ihc ih =>
    cases h with
    | drop _ h => exact .drop _ (ih h)
    | keep _ h => exact .element hu (ihc (refl _)) (ih h)
    | element ht hc h => exact .element (ht.trans hu) (ihc hc) (ih h)

theorem append (h : Remnant ks ls) (h' : Remnant ms ns) : Remnant (ks ++ ms) (ls ++ ns) := by
  induction h with
  | nil => exact h'
  | drop n _ ih => exact .drop n ih
  | keep n _ ih => exact .keep n ih
  | element ht hc _ _ ih => exact .element ht hc ih

theorem of_sublist (h : ms.Sublist ns) : Remnant ms ns := by
  induction h with
  | slnil => exact .nil
  | cons n _ ih => exact .drop n ih
  | cons_cons n _ ih => exact .keep n ih

/-- The nodes of the lists are remnants of one another, each in its place. -/
abbrev InPlace (ms ns : List Node) : Prop := List.Forall₂ (fun m n => Remnant [m] [n]) ms ns

theorem inPlace_refl (ns : List Node) : InPlace ns ns :=
  List.forall₂_same.mpr fun n _ => .refl [n]

theorem of_inPlace (h : InPlace ms ns) : Remnant ms ns := by
  induction h with
  | nil => exact .nil
  | cons hn _ ih => exact hn.append ih

end Remnant

/-- A change leaves a remnant of the elements it is made of. -/
structure Trims (f : Element → Element) : Prop where
  tag : ∀ e, (f e).tag.SameButMarks e.tag
  children : ∀ e, Remnant (f e).children e.children

namespace Node

def changed (id : String) (f : Element → Element) (ns : List Node) : List Node :=
  (updateIdList? id f ns).getD ns

section Equations

variable (id : String) (f : Element → Element) (t : Tag) (cs ns : List Node)

@[simp] theorem changed_nil : changed id f [] = [] := rfl

theorem changed_element_of_id {t : Tag} (h : t.id? = some id) :
    changed id f (element t cs :: ns) = (f ⟨t, cs⟩).toNode :: ns := by
  rw [changed, updateIdList?_element, if_pos h, Option.getD_some]

theorem changed_element {t : Tag} (h : t.id? ≠ some id) :
    changed id f (element t cs :: ns) =
      if (withIdList? id cs).isSome then element t (changed id f cs) :: ns
      else element t cs :: changed id f ns := by
  rw [changed, updateIdList?_element, if_neg h]
  cases hc : withIdList? id cs with
  | none =>
    rw [updateIdList?_eq_none_iff.mpr hc]
    cases hn : updateIdList? id f ns <;> simp [changed, hn]
  | some e =>
    obtain ⟨ds, hd⟩ := exists_updateIdList? f hc
    simp [changed, hd]

theorem changed_leaf {n : Node} (h : n.isElement = false) :
    changed id f (n :: ns) = n :: changed id f ns := by
  rw [changed, updateIdList?_leaf _ _ _ h]
  cases hn : updateIdList? id f ns <;> simp [changed, hn]

theorem changed_of_none {ns : List Node} (h : withIdList? id ns = none) :
    changed id f ns = ns := by
  rw [changed, updateIdList?_eq_none_iff.mpr h, Option.getD_none]

end Equations

variable {f : Element → Element}

theorem inPlace_changed (hf : Trims f) (id : String) (ns : List Node) :
    Remnant.InPlace (changed id f ns) ns := by
  induction ns using list_induction with
  | nil => exact .nil
  | element t cs ns ihc ihn =>
    by_cases ht : t.id? = some id
    · rw [changed_element_of_id id f cs ns ht]
      exact .cons (.element (hf.tag _) (hf.children _) .nil) (Remnant.inPlace_refl ns)
    · rw [changed_element id f cs ns ht]
      split
      · exact .cons (.element (.refl t) (.of_inPlace ihc) .nil) (Remnant.inPlace_refl ns)
      · exact .cons (.refl _) ihn
  | leaf n ns hn ih =>
    rw [changed_leaf id f ns hn]
    exact .cons (.refl [n]) ih

theorem remnant_changed (hf : Trims f) (id : String) (ns : List Node) :
    Remnant (changed id f ns) ns := .of_inPlace (inPlace_changed hf id ns)

end Node

/-- The element without the children at the places from `start` up to `stop`. -/
def Element.cutOut (start stop : Nat) (e : Element) : Element :=
  let stop := min stop e.children.length
  { e with children := e.children.take (min start stop) ++ e.children.drop stop }

theorem trims_cutOut (start stop : Nat) : Trims (Element.cutOut start stop) where
  tag e := .refl e.tag
  children e := by
    conv => rhs; rw [← List.take_append_drop (min stop e.children.length) e.children]
    exact (Remnant.of_sublist (List.take_sublist_take_left (Nat.min_le_right _ _))).append (.refl _)

theorem Remnant.cutOut {t u : Tag} {ms ns : List Node} (start stop : Nat)
    (h : InPlace ms ns) :
    Remnant (Element.cutOut start stop ⟨t, ms⟩).children
      (Element.cutOut start stop ⟨u, ns⟩).children := by
  simp only [Element.cutOut, h.length_eq]
  exact .append (.of_inPlace (List.forall₂_take _ h)) (.of_inPlace (List.forall₂_drop _ h))

/-- A change empties an element or leaves its children as they are. -/
structure Spares (f : Element → Element) : Prop where
  tag : ∀ e, (f e).tag.SameButMarks e.tag
  children : ∀ e, (f e).children = [] ∨ (f e).children = e.children

theorem Spares.trims {f : Element → Element} (h : Spares f) : Trims f where
  tag := h.tag
  children e := by
    rcases h.children e with he | he <;> rw [he]
    · exact .nil_left _
    · exact .refl _

namespace Node

variable {f : Element → Element}

theorem isSome_withIdList?_of_changed (hf : Spares f) {id : String} (id' : String)
    {ns : List Node} (h : (withIdList? id (changed id' f ns)).isSome) :
    (withIdList? id ns).isSome := by
  induction ns using list_induction with
  | nil => exact h
  | element t cs ns ihc ihn =>
    rw [isSome_withIdList?_element]
    by_cases ht : t.id? = some id'
    · rw [changed_element_of_id id' f cs ns ht, Element.toNode, isSome_withIdList?_element,
        (hf.tag _).id?] at h
      rcases hf.children ⟨t, cs⟩ with he | he <;> rw [he] at h
      · exact h.imp_right fun h => .inr (h.resolve_left (by simp))
      · exact h
    · rw [changed_element id' f cs ns ht] at h
      split at h
      · exact (isSome_withIdList?_element ..).mp h |>.imp_right (Or.imp_left ihc)
      · exact (isSome_withIdList?_element ..).mp h |>.imp_right (Or.imp_right ihn)
  | leaf n ns hn ih =>
    rw [changed_leaf id' f ns hn, withIdList?_leaf _ _ hn] at h
    rw [withIdList?_leaf _ _ hn]
    exact ih h

/-- Cutting out of the element of an id comes to a remnant of what it would have come to if
the element of another id had not been emptied before. -/
theorem remnant_changed_cutOut (hf : Spares f) (id id' : String) (start stop : Nat)
    (ns : List Node) :
    Remnant (changed id (.cutOut start stop) (changed id' f ns))
      (changed id (.cutOut start stop) ns) := by
  have hcut := trims_cutOut start stop
  induction ns using list_induction with
  | nil => exact .nil
  | element t cs ns ihc ihn =>
    by_cases ht' : t.id? = some id'
    · rw [changed_element_of_id id' f cs ns ht', Element.toNode]
      have hm := hf.tag ⟨t, cs⟩
      by_cases ht : t.id? = some id
      · rw [changed_element_of_id _ _ _ _ ht, changed_element_of_id _ _ _ _ (hm.id?.trans ht)]
        refine .element hm ?_ (.refl ns)
        rcases hf.children ⟨t, cs⟩ with he | he <;> rw [he]
        · simpa [Element.cutOut] using Remnant.nil_left _
        · exact .cutOut start stop (Remnant.inPlace_refl cs)
      · rw [changed_element _ _ _ _ ht, changed_element _ _ _ _ (hm.id? ▸ ht)]
        rcases hf.children ⟨t, cs⟩ with he | he <;> rw [he]
        · rw [if_neg (by simp)]
          split
          · exact .element hm (.nil_left _) (remnant_changed hcut id ns)
          · exact .element hm (.nil_left _) (.refl _)
        · split <;> exact .element hm (.refl _) (.refl _)
    · rw [changed_element id' f cs ns ht']
      by_cases ht : t.id? = some id
      · rw [changed_element_of_id _ _ _ _ ht]
        split <;> rw [changed_element_of_id _ _ _ _ ht]
        · exact .element (.refl t) (.cutOut start stop (inPlace_changed hf.trims id' cs)) (.refl ns)
        · exact .keep _ (remnant_changed hf.trims id' ns)
      · rw [changed_element id _ cs ns ht]
        split <;> rw [changed_element _ _ _ _ ht]
        · by_cases h : (withIdList? id (changed id' f cs)).isSome
          · rw [if_pos h, if_pos (isSome_withIdList?_of_changed hf id' h)]
            exact .element (.refl t) ihc (.refl ns)
          · rw [if_neg h]
            rw [changed_of_none _ _ (Option.not_isSome_iff_eq_none.mp h)] at ihc
            split
            · exact .element (.refl t) ihc (remnant_changed hcut id ns)
            · exact .element (.refl t) (remnant_changed hf.trims id' cs) (.refl _)
        · split
          · exact .keep _ (remnant_changed hf.trims id' ns)
          · exact .keep _ ihn
  | leaf n ns hn ih =>
    rw [changed_leaf _ _ _ hn, changed_leaf _ _ _ hn, changed_leaf _ _ _ hn]
    exact .keep n ih

end Node

end Questionnaire.Markup

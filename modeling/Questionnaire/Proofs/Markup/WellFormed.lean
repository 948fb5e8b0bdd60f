import Questionnaire.Proofs.Markup.StartTag

/-! # Well formed trees

A tree is well formed when its markup can be told apart into the same nodes: names
end where a tag says, texts hold no bracket and are not split in two, and a
comment, a declaration or a raw body does not end before its end.
-/

namespace Questionnaire.Markup

open Text

namespace Tag

instance (t : Tag) : Decidable t.WellFormed :=
  decidable_of_iff ((t.name.toList.head?.any Token.isLetter = true) ∧
      Plain ['/', '>'] t.name.toList ∧
      ∀ a ∈ t.attributes, a.1 ≠ "" ∧ Plain ['=', '>', '/'] a.1.toList)
    ⟨fun ⟨hl, hn, ha⟩ => ⟨Option.any_eq_true _ _ |>.mp hl, hn, ha⟩,
      fun ⟨hl, hn, ha⟩ => ⟨Option.any_eq_true _ _ |>.mpr hl, hn, ha⟩⟩

/-- What a raw element may hold: nothing, or a text that does not begin its closing tag. -/
def RawBody (t : Tag) : List Node → Prop
  | [] => True
  | [.text s] => s ≠ "" ∧ ¬ '<' :: '/' :: t.name.toList <:+: s.toList.map Char.toLower
  | _ => False

theorem rawBody_iff {t : Tag} {cs : List Node} : t.RawBody cs ↔
    cs = [] ∨ ∃ s, cs = [.text s] ∧ s ≠ "" ∧
      ¬ '<' :: '/' :: t.name.toList <:+: s.toList.map Char.toLower := by
  constructor
  · rw [RawBody.eq_def]
    split <;> simp_all
  · rintro (rfl | ⟨s, rfl, hne, hc⟩)
    · exact trivial
    · exact ⟨hne, hc⟩

instance (t : Tag) (cs : List Node) : Decidable (t.RawBody cs) :=
  match cs with
  | [] => isTrue trivial
  | [.text _] => inferInstanceAs (Decidable (_ ∧ _))
  | [.element _ _] | [.comment _] | [.declaration _] => isFalse id
  | _ :: _ :: _ => isFalse (by simp [RawBody])

end Tag

/-- A declaration with its brackets; the only closing one is at its end. -/
def IsDeclaration (cs : List Char) : Prop :=
  ("<!".toList <+: cs ∨ "<?".toList <+: cs) ∧ ¬ "<!--".toList <+: cs ∧
    cs.count '>' = 1 ∧ cs.getLast? = some '>'

instance (cs : List Char) : Decidable (IsDeclaration cs) :=
  inferInstanceAs (Decidable (_ ∧ _))

theorem IsDeclaration.exists_body {cs : List Char} (h : IsDeclaration cs) :
    ∃ e, cs = '<' :: e ++ ['>'] ∧ '>' ∉ e ∧ (e.head? = some '!' ∨ e.head? = some '?') ∧
      ¬ "!--".toList <+: e := by
  obtain ⟨hb, hc, hcount, hl⟩ := h
  obtain ⟨d, rfl⟩ := List.getLast?_eq_some_iff.mp hl
  have hg : '>' ∉ d := by
    rw [List.count_append] at hcount
    exact List.count_eq_zero.mp (by simpa using hcount)
  have hb : "<!".toList <+: d ∨ "<?".toList <+: d :=
    hb.imp (prefix_of_prefix_append (by decide)) (prefix_of_prefix_append (by decide))
  have hc : ¬ "<!--".toList <+: d := fun h => hc (h.trans (List.prefix_append d _))
  rcases hb with ⟨e, rfl⟩ | ⟨e, rfl⟩
  · exact ⟨'!' :: e, rfl, fun h => hg (.tail _ h), .inl rfl,
      fun h => hc (List.cons_prefix_cons.mpr ⟨rfl, h⟩)⟩
  · exact ⟨'?' :: e, rfl, fun h => hg (.tail _ h), .inr rfl,
      fun h => hc (List.cons_prefix_cons.mpr ⟨rfl, h⟩)⟩

namespace Node

def isText : Node → Bool
  | text _ => true
  | _ => false

mutual

def WellFormed : Node → Prop
  | .element t cs =>
    t.WellFormed ∧
      if t.isVoid then cs = [] else if t.isRaw then t.RawBody cs else WellFormedList cs
  | .text s => s ≠ "" ∧ '<' ∉ s.toList
  | .comment s => ¬ "-->".toList <:+: s.toList
  | .declaration s => IsDeclaration s.toList

/-- Nodes without a text beside a text. -/
def WellFormedList : List Node → Prop
  | [] => True
  | n :: ns => n.WellFormed ∧ ¬ (n.isText ∧ ns.head?.any isText) ∧ WellFormedList ns

end

mutual

def decideWellFormed : (n : Node) → Decidable n.WellFormed
  | .element t cs =>
    have := decideWellFormedList cs
    inferInstanceAs (Decidable (t.WellFormed ∧
      if t.isVoid then cs = [] else if t.isRaw then t.RawBody cs else WellFormedList cs))
  | .text _ => inferInstanceAs (Decidable (_ ∧ _))
  | .comment _ => inferInstanceAs (Decidable (¬ _))
  | .declaration s => inferInstanceAs (Decidable (IsDeclaration s.toList))

def decideWellFormedList : (ns : List Node) → Decidable (WellFormedList ns)
  | [] => isTrue trivial
  | n :: ns =>
    have := decideWellFormed n
    have := decideWellFormedList ns
    inferInstanceAs (Decidable (n.WellFormed ∧ _ ∧ WellFormedList ns))

end

instance (ns : List Node) : Decidable (WellFormedList ns) := decideWellFormedList ns

end Node

end Questionnaire.Markup

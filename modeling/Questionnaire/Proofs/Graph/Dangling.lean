import Mathlib.Data.List.Sort
import Questionnaire.Graph

/-! # Dangling transitions

In a graph whose questions stand under their own ids the dangling transitions are those
that lead from a question of the graph to none. They are listed once, by question and
then by answer.
-/

namespace Questionnaire.Graph

def Dangling.Precedes (d e : Dangling) : Prop :=
  d.source < e.source ∨ d.source = e.source ∧ d.answer < e.answer

instance : Std.Irrefl Dangling.Precedes where
  irrefl d := by
    rintro (h | ⟨-, h⟩)
    · exact String.lt_irrefl _ h
    · exact String.lt_irrefl _ h

instance : Std.Antisymm Dangling.Precedes where
  antisymm d e := by
    rintro (h | ⟨hs, h⟩) (h' | ⟨hs', h'⟩)
    · exact (String.lt_asymm h h').elim
    · exact (String.lt_irrefl _ (hs' ▸ h)).elim
    · exact (String.lt_irrefl _ (hs ▸ h')).elim
    · exact (String.lt_asymm h h').elim

def Named (g : Graph) : Prop := ∀ id q, g.get? id = some q → q.id = id

/-- The transitions of a question that lead to no question of a graph. -/
def danglingOf (g : Graph) (q : Question) : List Dangling :=
  (q.next.entries.filter fun e => !g.contains e.2).map fun e => ⟨q.id, e.1, e.2⟩

variable {g : Graph}

theorem dangling_eq (g : Graph) :
    g.dangling = g.questions.entries.flatMap fun e => g.danglingOf e.2 := by
  rw [dangling, Table.values, List.flatMap_map]
  rfl

theorem contains_eq_false_iff {id : String} : g.contains id = false ↔ g.get? id = none :=
  Option.isSome_eq_false_iff.trans Option.isNone_iff_eq_none

theorem mem_danglingOf_iff {q : Question} {d : Dangling} :
    d ∈ g.danglingOf q ↔
      q.id = d.source ∧ q.next.get? d.answer = some d.target ∧ g.get? d.target = none := by
  simp only [danglingOf, List.mem_map, List.mem_filter, Bool.not_eq_true',
    contains_eq_false_iff, Prod.exists, Table.mem_entries_iff]
  constructor
  · rintro ⟨answer, target, ⟨hnext, hnone⟩, rfl⟩
    exact ⟨rfl, hnext, hnone⟩
  · rintro ⟨hid, hnext, hnone⟩
    exact ⟨d.answer, d.target, ⟨hnext, hnone⟩, by rw [hid]⟩

theorem mem_dangling_iff (h : g.Named) {d : Dangling} :
    d ∈ g.dangling ↔ ∃ q, g.get? d.source = some q ∧
      q.next.get? d.answer = some d.target ∧ g.get? d.target = none := by
  simp only [dangling_eq, List.mem_flatMap, mem_danglingOf_iff, Prod.exists, Table.mem_entries_iff]
  constructor
  · rintro ⟨id, q, hq, hid, hd⟩
    obtain rfl : id = d.source := (h id q hq).symm.trans hid
    exact ⟨q, hq, hd⟩
  · rintro ⟨q, hq, hd⟩
    exact ⟨d.source, q, hq, h d.source q hq, hd⟩

theorem pairwise_danglingOf (g : Graph) (q : Question) :
    (g.danglingOf q).Pairwise Dangling.Precedes := by
  rw [danglingOf, List.pairwise_map]
  refine List.Pairwise.filter _ ?_
  exact (List.pairwise_map.mp q.next.sorted).imp fun hlt => .inr ⟨rfl, hlt⟩

theorem pairwise_dangling (h : g.Named) : g.dangling.Pairwise Dangling.Precedes := by
  rw [dangling_eq, List.pairwise_flatMap]
  constructor
  · intro e _
    exact pairwise_danglingOf g e.2
  · refine (List.pairwise_map.mp g.questions.sorted).imp_of_mem ?_
    intro a b ha hb hlt d hd e he
    have hda : d.source = a.1 :=
      (mem_danglingOf_iff.mp hd).1.symm.trans (h a.1 a.2 (Table.mem_entries_iff.mp ha))
    have heb : e.source = b.1 :=
      (mem_danglingOf_iff.mp he).1.symm.trans (h b.1 b.2 (Table.mem_entries_iff.mp hb))
    left
    rwa [hda, heb]

end Questionnaire.Graph

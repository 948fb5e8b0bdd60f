import Questionnaire.Proofs.Placeholder.Spans

/-! # Filled markup

A pass replaces the spans whose keys are bound and nothing else. What it puts in is
not looked into, and every unbound key is reported once, in the order in which the
keys first appear.
-/

namespace Questionnaire

/-- A text from an offset on, with the spans of bound keys replaced by their values. -/
def replaceSpans? (data : Bindings) (offset : Nat) : List Placeholder → List Char →
    Option (List Char)
  | [], cs => some cs
  | p :: ps, cs => do
    let (before, behind) ← cutBytes? (p.start - offset) cs
    let (hole, rest) ← cutBytes? (p.stop - p.start) behind
    let replaced ← replaceSpans? data p.stop ps rest
    return before ++ ((data.get? p.key).map String.toList).getD hole ++ replaced

/-- What a pass over the spans of a text gives. -/
structure Fills (data : Bindings) (cs : List Char) (ps : List Placeholder) (f : Filled) :
    Prop where
  markup : replaceSpans? data 0 ps cs = some f.markup.toList
  mem_missing : ∀ k, k ∈ f.missing ↔ (∃ p ∈ ps, p.key = k) ∧ data.get? k = none
  nodup : f.missing.Nodup
  inOrder : f.missing.Pairwise fun j k => (ps.map (·.key)).idxOf j < (ps.map (·.key)).idxOf k

theorem replaceSpans?_locate (m : Marks) (data : Bindings) (offset : Nat) (before : List Char)
    (ps : List Piece) : replaceSpans? data offset
        (Placeholder.locate m (offset + utf8Length before) ps)
        (before ++ ps.flatMap (Piece.source m)) =
      some (before ++ ps.flatMap (Piece.filled m data)) := by
  induction ps generalizing offset before with
  | nil => simp [Placeholder.locate, replaceSpans?]
  | cons p ps ih =>
    cases p with
    | text t =>
      have := ih offset (before ++ t)
      simpa [Placeholder.locate, Piece.key?, Piece.source, Piece.filled, Nat.add_assoc] using this
    | hole key =>
      have := ih (offset + utf8Length before + utf8Length (Piece.source m (.hole key))) []
      simp only [utf8Length_nil, Nat.add_zero, List.nil_append] at this
      simp only [Placeholder.locate, Piece.key?, replaceSpans?, List.flatMap_cons,
        Nat.add_sub_cancel_left, cutBytes?_append, Option.bind_eq_bind, Option.bind_some, this]
      cases h : data.get? (String.ofList key) <;> simp [Piece.filled, h]

theorem map_key_locate (m : Marks) (offset : Nat) (ps : List Piece) :
    (Placeholder.locate m offset ps).map (·.key) = ps.filterMap Piece.key? := by
  induction ps generalizing offset with
  | nil => rfl
  | cons p ps ih =>
    cases p with
    | text t => exact ih _
    | hole key => simp [Placeholder.locate, Piece.key?, ih]

theorem eraseDups_filter_append_singleton (keep : String → Bool) (ks : List String) (k : String) :
    ((ks ++ [k]).filter keep).eraseDups =
      if keep k = true ∧ k ∉ ks then (ks.filter keep).eraseDups ++ [k]
      else (ks.filter keep).eraseDups := by
  rw [List.filter_append, List.eraseDups_append, List.removeAll]
  by_cases hk : keep k = true <;> by_cases hm : k ∈ ks <;> simp [hk, hm, List.eraseDups_cons]

theorem pairwise_eraseDups_filter (keep : String → Bool) (ks : List String) :
    (ks.filter keep).eraseDups.Pairwise fun j k => ks.idxOf j < ks.idxOf k := by
  induction ks using List.reverseRecOn with
  | nil => exact .nil
  | append_singleton ks k ih =>
    have hmem : ∀ j ∈ (ks.filter keep).eraseDups, j ∈ ks := by
      intro j hj
      exact (List.mem_filter.mp (List.mem_eraseDups.mp hj)).1
    have ih : (ks.filter keep).eraseDups.Pairwise
        fun i j => (ks ++ [k]).idxOf i < (ks ++ [k]).idxOf j := by
      apply ih.imp_of_mem
      intro i j hi hj hij
      rwa [List.idxOf_append_of_mem (hmem i hi), List.idxOf_append_of_mem (hmem j hj)]
    rw [eraseDups_filter_append_singleton]
    split
    · next hk =>
      refine List.pairwise_append.mpr ⟨ih, List.pairwise_singleton _ _, ?_⟩
      intro j hj i hi
      obtain rfl := List.mem_singleton.mp hi
      rw [List.idxOf_append_of_mem (hmem j hj), List.idxOf_append_of_notMem hk.2]
      exact Nat.lt_add_right _ (List.idxOf_lt_length_of_mem (hmem j hj))
    · exact ih

namespace Placeholder

variable (m : Marks) (data : Bindings) (markup : String)

theorem missing_fillReport : (fillReport m data markup).missing =
    (((all m markup).map (·.key)).filter fun k => !data.contains k).eraseDups := by
  rw [all, map_key_locate]
  rfl

/-- A pass replaces the spans of a markup's placeholders. -/
theorem fills_fillReport :
    Fills data markup.toList (all m markup) (fillReport m data markup) where
  markup := by
    have := replaceSpans?_locate m data 0 [] (Piece.scan m markup.toList)
    rw [List.nil_append, Piece.flatMap_source_scan] at this
    simpa [all, fillReport, utf8Length_nil] using this
  mem_missing k := by
    simp [missing_fillReport, List.mem_eraseDups, Table.contains]
  nodup := by
    rw [missing_fillReport]
    exact (pairwise_eraseDups_filter _ _).imp fun h e => by simp [e] at h
  inOrder := by
    rw [missing_fillReport]
    exact pairwise_eraseDups_filter _ _

end Placeholder

variable {m : Marks}

/-- Substitution by spans: the placeholders are the spans of a markup, a pass replaces those
that are bound, and a pass that reports has one warning for each key it misses. -/
theorem fill_replaces_spans (ho : m.opening ≠ []) (hc : m.closing ≠ []) (hl : '\n' ∉ m.opening)
    (data : Bindings) (markup : String) :
    Spans m markup.toList (Placeholder.all m markup) ∧
      Fills data markup.toList (Placeholder.all m markup) (fillReport m data markup) ∧
      (fill m data markup).value = (fillReport m data markup).markup ∧
      (fill m data markup).events =
        (fillReport m data markup).missing.map .unboundPlaceholder ∧
      ∀ e ∈ (fill m data markup).events, e.level = .warning := by
  refine ⟨Placeholder.spans_all ho hc hl markup, Placeholder.fills_fillReport m data markup, rfl,
    rfl, ?_⟩
  intro e he
  obtain ⟨k, -, rfl⟩ := List.mem_map.mp he
  rfl

/-- The first key is bound to what looks like the second, which is not bound. -/
theorem fill_replaces_spans_field :
    Marks.field.opening ≠ [] ∧ Marks.field.closing ≠ [] ∧ '\n' ∉ Marks.field.opening ∧
      Fills (.ofList [("a", "\x7bb\x7d")]) "\x7ba\x7d \x7bb\x7d".toList
        (Placeholder.all .field "\x7ba\x7d \x7bb\x7d")
        (fillReport .field (.ofList [("a", "\x7bb\x7d")]) "\x7ba\x7d \x7bb\x7d") :=
  have ho : Marks.field.opening ≠ [] := by decide
  have hc : Marks.field.closing ≠ [] := by decide
  have hl : '\n' ∉ Marks.field.opening := by decide
  ⟨ho, hc, hl, (fill_replaces_spans ho hc hl _ _).2.1⟩

end Questionnaire

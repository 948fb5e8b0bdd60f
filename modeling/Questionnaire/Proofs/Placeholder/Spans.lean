import Questionnaire.Proofs.Placeholder.Slice
import Questionnaire.Proofs.Text.Search

/-! # Spans of placeholders

The placeholders of a markup stand where a reader finds them: an opening mark with
the nearest closing mark and a key on one line between them. They are apart and in
order, and an opening mark that would begin one more overlaps one of them.
-/

namespace Questionnaire

open Text

/-- The spans of the placeholders of a text. -/
structure Spans (m : Marks) (cs : List Char) (ps : List Placeholder) : Prop where
  apart : ps.Pairwise fun p q => p.stop ≤ q.start
  marked : ∀ p ∈ ps, p.start < p.stop ∧
    slice? cs p.start p.stop = some (m.opening ++ p.key.toList ++ m.closing)
  nearest : ∀ p ∈ ps, FirstAt m.closing p.key.toList
  oneLine : ∀ p ∈ ps, '\n' ∉ p.key.toList
  /-- The key behind an opening mark apart from all spans is not on one line. -/
  complete : ∀ i key, slice? cs i (i + utf8Length (m.opening ++ key ++ m.closing)) =
      some (m.opening ++ key ++ m.closing) → FirstAt m.closing key →
    (∀ p ∈ ps, i + utf8Length m.opening ≤ p.start ∨ p.stop ≤ i) → '\n' ∈ key

section

variable {m : Marks}

theorem Piece.hole_mem_scan {cs key : List Char} (h : .hole key ∈ scan m cs) :
    FirstAt m.closing key ∧ '\n' ∉ key := by
  fun_induction scan m cs with
  | case1 | case2 | case3 => simp at h
  | case4 cs hm before behind hb key' rest hr hk ih => exact ih (by simpa using h)
  | case5 cs hm before behind hb key' rest hr hk ih =>
    simp only [List.mem_cons, reduceCtorEq, Piece.hole.injEq, false_or] at h
    rcases h with rfl | h
    · exact ⟨firstAt_of_cutAt? hr, hk⟩
    · exact ih h

namespace Placeholder

theorem mem_locate {offset : Nat} {ps : List Piece} {p : Placeholder}
    (h : p ∈ locate m offset ps) : ∃ as key bs, ps = as ++ .hole key :: bs ∧
      p = ⟨String.ofList key, offset + utf8Length (as.flatMap (Piece.source m)),
        offset + utf8Length (as.flatMap (Piece.source m)) +
          utf8Length (m.opening ++ key ++ m.closing)⟩ := by
  induction ps generalizing offset with
  | nil => simp [locate] at h
  | cons q ps ih =>
    cases q with
    | text t =>
      obtain ⟨as, key, bs, rfl, rfl⟩ := ih h
      exact ⟨.text t :: as, key, bs, rfl, by simp [Piece.source, Nat.add_assoc]⟩
    | hole key =>
      simp only [locate, Piece.key?, List.mem_cons] at h
      rcases h with rfl | h
      · exact ⟨[], key, ps, rfl, by simp [Piece.source, utf8Length_nil]⟩
      · obtain ⟨as, key', bs, rfl, rfl⟩ := ih h
        exact ⟨.hole key :: as, key', bs, rfl, by simp [Piece.source, Nat.add_assoc]⟩

theorem pairwise_locate (offset : Nat) (ps : List Piece) :
    (locate m offset ps).Pairwise fun p q => p.stop ≤ q.start := by
  induction ps generalizing offset with
  | nil => exact .nil
  | cons p ps ih =>
    cases p with
    | text t => exact ih _
    | hole key =>
      refine .cons ?_ (ih _)
      intro q hq
      obtain ⟨as, key', bs, -, rfl⟩ := mem_locate hq
      simp

theorem mark_cases {o behind c r : List Char} (h : o ++ behind = c ++ (o ++ r)) :
    (∃ d, c = o ++ d ∧ behind = d ++ (o ++ r)) ∨ ∃ d e, o = d ++ e ∧ behind = e ++ r := by
  rcases List.append_eq_append_iff.mp h with ⟨d, rfl, hd⟩ | ⟨d, hd, hb⟩
  · exact .inl ⟨d, rfl, hd⟩
  rcases List.append_eq_append_iff.mp hb with ⟨e, rfl, rfl⟩ | ⟨e, he, rfl⟩
  · have := congrArg List.length hd
    simp only [List.length_append] at this
    obtain rfl := List.length_eq_zero_iff.mp (by omega : e.length = 0)
    exact .inr ⟨o, [], by simp, by simp⟩
  · exact .inr ⟨d, e, he, rfl⟩

theorem behind_or_inside {part rest c r : List Char} (h : part ++ rest = c ++ r) :
    (∃ d, c = part ++ d ∧ rest = d ++ r) ∨ utf8Length c < utf8Length part := by
  rcases List.append_eq_append_iff.mp h with ⟨d, rfl, hd⟩ | ⟨d, rfl, hr⟩
  · exact .inl ⟨d, rfl, hd⟩
  by_cases hd : d = []
  · subst hd
    exact .inl ⟨[], by simp, by simpa using hr.symm⟩
  · have := utf8Length_pos hd
    rw [utf8Length_append]
    exact .inr (by omega)

/-- A mark in front of a key on one line overlaps the span of a placeholder. -/
theorem exists_overlap (ho : m.opening ≠ []) (hc : m.closing ≠ []) (hl : '\n' ∉ m.opening)
    (offset : Nat) {cs a key b : List Char} (he : cs = a ++ m.opening ++ (key ++ m.closing ++ b))
    (hk : '\n' ∉ key) : ∃ p ∈ locate m offset (Piece.scan m cs),
      p.start < offset + utf8Length a + utf8Length m.opening ∧ offset + utf8Length a < p.stop := by
  fun_induction Piece.scan m cs generalizing offset a key b with
  | case1 cs hm => simp_all
  | case2 cs hm hb => exact absurd ⟨a, _, he.symm⟩ (cutAt?_eq_none_iff.mp hb)
  | case3 cs hm before behind hb hr =>
    obtain ⟨c, rfl, hcs⟩ := exists_of_cutAt? hb he
    refine absurd ?_ (cutAt?_eq_none_iff.mp hr)
    rcases mark_cases hcs with ⟨d, -, rfl⟩ | ⟨d, e, -, rfl⟩
    · exact ⟨d ++ m.opening ++ key, b, by simp⟩
    · exact ⟨e ++ key, b, by simp⟩
  | case4 cs hm before behind hb key' rest hr hk' ih =>
    obtain ⟨c, rfl, hcs⟩ := exists_of_cutAt? hb he
    rcases mark_cases hcs with ⟨d, rfl, hd⟩ | ⟨d, e, hde, he'⟩
    · obtain ⟨p, hp, hs⟩ := ih (offset + utf8Length (before ++ m.opening)) (a := d)
        (by simpa using hd) hk
      refine ⟨p, hp, ?_⟩
      simp only [utf8Length_append] at hs ⊢
      omega
    · -- What the two marks share has no line break, so the key behind both has the one of `key'`.
      have he' : behind = e ++ key ++ m.closing ++ b := by simp [he']
      obtain ⟨c', hkey, -⟩ := exists_of_cutAt? hr he'
      rcases List.mem_append.mp (hkey ▸ List.mem_append_left c' hk' : '\n' ∈ e ++ key) with h | h
      · exact absurd (hde ▸ List.mem_append_right d h) hl
      · exact absurd h hk
  | case5 cs hm before behind hb key' rest hr hk' ih =>
    obtain ⟨c, rfl, hcs⟩ := exists_of_cutAt? hb he
    rw [eq_append_of_cutAt? hr, ← List.append_assoc, ← List.append_assoc] at hcs
    rcases behind_or_inside hcs with ⟨d, rfl, hd⟩ | hlt
    · obtain ⟨p, hp, hs⟩ := ih (offset + utf8Length before +
        utf8Length (m.opening ++ key' ++ m.closing)) (a := d) (by simpa using hd) hk
      refine ⟨p, .tail _ hp, ?_⟩
      simp only [utf8Length_append] at hs ⊢
      omega
    · have := utf8Length_pos ho
      refine ⟨_, .head _, ?_⟩
      simp only [Piece.source, utf8Length_append] at hlt ⊢
      omega

theorem hole_mem_scan {markup : String} {p : Placeholder} (h : p ∈ all m markup) :
    .hole p.key.toList ∈ Piece.scan m markup.toList := by
  obtain ⟨as, key, bs, hps, rfl⟩ := mem_locate h
  rw [hps, String.toList_ofList]
  simp

theorem slice?_of_mem_all {markup : String} {p : Placeholder} (h : p ∈ all m markup) :
    slice? markup.toList p.start p.stop =
      some (m.opening ++ p.key.toList ++ m.closing) := by
  obtain ⟨as, key, bs, hps, rfl⟩ := mem_locate h
  have := slice?_append (as.flatMap (Piece.source m)) (m.opening ++ key ++ m.closing)
    (bs.flatMap (Piece.source m))
  rw [← Piece.flatMap_source_scan m markup.toList, hps, Nat.zero_add, String.toList_ofList]
  simpa [Piece.source] using this

theorem start_lt_stop (ho : m.opening ≠ []) {markup : String} {p : Placeholder}
    (h : p ∈ all m markup) : p.start < p.stop := by
  obtain ⟨as, key, bs, -, rfl⟩ := mem_locate h
  have := utf8Length_pos ho
  simp only [utf8Length_append]
  omega

/-- All placeholders of a markup are the spans of its text. -/
theorem spans_all (ho : m.opening ≠ []) (hc : m.closing ≠ []) (hl : '\n' ∉ m.opening)
    (markup : String) : Spans m markup.toList (all m markup) where
  apart := pairwise_locate 0 _
  marked _ hp := ⟨start_lt_stop ho hp, slice?_of_mem_all hp⟩
  nearest _ hp := (Piece.hole_mem_scan (hole_mem_scan hp)).1
  oneLine _ hp := (Piece.hole_mem_scan (hole_mem_scan hp)).2
  complete i key hs _ hp := by
    by_contra hk
    obtain ⟨a, b, he, rfl⟩ := eq_append_of_slice? hs
    have he : markup.toList = a ++ m.opening ++ (key ++ m.closing ++ b) := by simpa using he
    obtain ⟨p, hm, h⟩ := exists_overlap ho hc hl 0 he hk
    have := hp p hm
    omega

end Placeholder

end

end Questionnaire

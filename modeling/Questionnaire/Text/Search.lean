/-! # Cutting text at a mark

`cutAt?` splits text around the first occurrence of a mark, and `cutBefore?`
in front of the first place where a test holds. The parts and the mark give
the text back, and the first part holds no earlier place.
-/

namespace Questionnaire.Text

variable {α : Type}

section Marks

variable [DecidableEq α]

/-- The rest of the text behind a mark it starts with. -/
def dropMark? : List α → List α → Option (List α)
  | [], cs => some cs
  | _ :: _, [] => none
  | m :: ms, c :: cs => if m = c then dropMark? ms cs else none

theorem dropMark?_eq_some_iff {m cs r : List α} : dropMark? m cs = some r ↔ cs = m ++ r := by
  induction m generalizing cs with
  | nil => simp [dropMark?]
  | cons x m ih =>
    cases cs with
    | nil => simp [dropMark?]
    | cons c cs =>
      by_cases h : x = c
      · simp [dropMark?, h, ih]
      · simp [dropMark?, h, Ne.symm h]

@[simp] theorem dropMark?_append (m r : List α) : dropMark? m (m ++ r) = some r :=
  dropMark?_eq_some_iff.mpr rfl

/-- The text in front of the first occurrence of the mark, and the text behind it. -/
def cutAt? (m : List α) : List α → Option (List α × List α)
  | [] => (dropMark? m []).map ([], ·)
  | c :: cs =>
    match dropMark? m (c :: cs) with
    | some r => some ([], r)
    | none => (cutAt? m cs).map fun p => (c :: p.1, p.2)

theorem eq_append_of_cutAt? {m cs a b : List α} (h : cutAt? m cs = some (a, b)) :
    cs = a ++ m ++ b := by
  induction cs generalizing a with
  | nil =>
    simp only [cutAt?, Option.map_eq_some_iff, Prod.mk.injEq, dropMark?_eq_some_iff] at h
    obtain ⟨_, h, rfl, rfl⟩ := h
    simpa using h
  | cons c cs ih =>
    rw [cutAt?] at h
    split at h
    · next r hr =>
      simp only [Option.some.injEq, Prod.mk.injEq] at h
      obtain ⟨rfl, rfl⟩ := h
      simpa using dropMark?_eq_some_iff.mp hr
    · simp only [Option.map_eq_some_iff, Prod.mk.injEq] at h
      obtain ⟨⟨a', b'⟩, h, rfl, rfl⟩ := h
      simp [ih h]

theorem length_lt_of_cutAt? {m cs a b : List α} (hm : m ≠ []) (h : cutAt? m cs = some (a, b)) :
    b.length < cs.length := by
  have := List.length_pos_iff.mpr hm
  rw [eq_append_of_cutAt? h]
  simp only [List.length_append]
  omega

end Marks

/-- The text in front of the first place where the test holds of what follows, and
what follows. -/
def cutBefore? (test : List α → Bool) : List α → Option (List α × List α)
  | [] => if test [] then some ([], []) else none
  | c :: cs =>
    if test (c :: cs) then some ([], c :: cs)
    else (cutBefore? test cs).map fun p => (c :: p.1, p.2)

theorem eq_append_of_cutBefore? {test : List α → Bool} {cs a b : List α}
    (h : cutBefore? test cs = some (a, b)) : cs = a ++ b ∧ test b = true := by
  induction cs generalizing a with
  | nil =>
    simp only [cutBefore?] at h
    split at h <;> simp_all
  | cons c cs ih =>
    rw [cutBefore?] at h
    split at h
    · next ht =>
      simp only [Option.some.injEq, Prod.mk.injEq] at h
      obtain ⟨rfl, rfl⟩ := h
      exact ⟨rfl, ht⟩
    · simp only [Option.map_eq_some_iff, Prod.mk.injEq] at h
      obtain ⟨⟨a', b'⟩, h, rfl, rfl⟩ := h
      exact ⟨by simp [(ih h).1], (ih h).2⟩

end Questionnaire.Text

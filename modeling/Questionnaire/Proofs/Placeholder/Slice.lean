import Questionnaire.Placeholder

/-! # Byte ranges of a text

A byte offset cuts a text in at most one way, and in none if it is inside of a
character. A range of offsets has a text if both of its ends cut.
-/

namespace Questionnaire

theorem utf8Length_pos {cs : List Char} (h : cs ≠ []) : 0 < utf8Length cs := by
  obtain ⟨c, cs, rfl⟩ := List.exists_cons_of_ne_nil h
  have := c.utf8Size_pos
  rw [utf8Length_cons]
  omega

/-- The length is the one of the text's UTF-8 form. -/
theorem utf8Length_toList (s : String) : utf8Length s.toList = s.utf8ByteSize := by
  have h : ∀ cs : List Char, utf8Length cs = (String.ofList cs).utf8ByteSize := by
    intro cs
    induction cs with
    | nil => rfl
    | cons c cs ih =>
      rw [utf8Length_cons, ih, ← List.singleton_append, String.ofList_append,
        String.utf8ByteSize_append, ← String.singleton_eq_ofList, String.utf8ByteSize_singleton]
  rw [h, String.ofList_toList]

def cutBytes? (n : Nat) : List Char → Option (List Char × List Char)
  | [] => if n = 0 then some ([], []) else none
  | c :: cs =>
    if n = 0 then some ([], c :: cs)
    else if n < c.utf8Size then none
    else (cutBytes? (n - c.utf8Size) cs).map fun (a, b) => (c :: a, b)

theorem cutBytes?_append (a b : List Char) : cutBytes? (utf8Length a) (a ++ b) = some (a, b) := by
  induction a with
  | nil => cases b <;> simp [cutBytes?, utf8Length_nil]
  | cons c a ih =>
    have := c.utf8Size_pos
    rw [List.cons_append, cutBytes?, utf8Length_cons, if_neg (by omega), if_neg (by omega),
      Nat.add_sub_cancel_left, ih]
    rfl

theorem eq_append_of_cutBytes? {n : Nat} {cs a b : List Char} (h : cutBytes? n cs = some (a, b)) :
    cs = a ++ b ∧ utf8Length a = n := by
  induction cs generalizing n a with
  | nil =>
    rw [cutBytes?] at h
    split at h <;> simp_all [utf8Length_nil, eq_comm]
  | cons c cs ih =>
    rw [cutBytes?] at h
    split at h
    · simp_all [utf8Length_nil, eq_comm]
    split at h
    · simp at h
    · simp only [Option.map_eq_some_iff, Prod.mk.injEq] at h
      obtain ⟨⟨a', b'⟩, h, rfl, rfl⟩ := h
      obtain ⟨rfl, hn⟩ := ih h
      refine ⟨rfl, ?_⟩
      simp only [utf8Length_cons]
      omega

/-- The text of a byte range. -/
def slice? (cs : List Char) (start stop : Nat) : Option (List Char) := do
  let (_, behind) ← cutBytes? start cs
  let (inside, _) ← cutBytes? (stop - start) behind
  return inside

theorem slice?_append (a t b : List Char) :
    slice? (a ++ t ++ b) (utf8Length a) (utf8Length a + utf8Length t) = some t := by
  simp [slice?, List.append_assoc, cutBytes?_append]

theorem eq_append_of_slice? {cs t : List Char} {start stop : Nat}
    (h : slice? cs start stop = some t) : ∃ a b, cs = a ++ t ++ b ∧ utf8Length a = start := by
  simp only [slice?, Option.bind_eq_bind, Option.bind_eq_some_iff] at h
  obtain ⟨⟨a, r⟩, ha, ⟨t', b⟩, hb, ht⟩ := h
  obtain ⟨rfl, rfl⟩ := eq_append_of_cutBytes? ha
  obtain ⟨rfl, -⟩ := eq_append_of_cutBytes? hb
  obtain rfl : t' = t := by simpa using ht
  exact ⟨a, b, by simp, rfl⟩

end Questionnaire

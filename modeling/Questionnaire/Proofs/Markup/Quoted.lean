import Questionnaire.Proofs.Markup.StartTag

/-! # Values between quotes

What stands between double quotes is read up to the first of them, and its references are read as
characters. A text is read as itself there exactly if it has neither.
-/

namespace Questionnaire.Markup

open Text

/-- A text that stands for itself between double quotes: it does not end them, and no ampersand in
it begins a reference. -/
structure Verbatim (cs : List Char) : Prop where
  quote : '"' ∉ cs
  reference : ∀ a b, cs = a ++ '&' :: b → cutReference? b = none

theorem length_decode_le (cs : List Char) : (decode cs).length ≤ cs.length := by
  fun_induction decode cs with
  | case1 => exact Nat.le_refl 0
  | case2 cs d rest h ih =>
    have := length_lt_of_cutReference? h
    simp only [List.length_cons]
    omega
  | case3 cs h ih => exact Nat.succ_le_succ ih
  | case4 c cs hc ih => exact Nat.succ_le_succ ih

theorem references_cons {c : Char} {cs : List Char} (hc : c = '&' → cutReference? cs = none) :
    (∀ a b, c :: cs = a ++ '&' :: b → cutReference? b = none) ↔
      ∀ a b, cs = a ++ '&' :: b → cutReference? b = none := by
  constructor
  · intro h a b he
    exact h (c :: a) b (by rw [he]; rfl)
  · rintro h (_ | ⟨x, a⟩) b he
    · obtain ⟨rfl, rfl⟩ := List.cons.inj he
      exact hc rfl
    · exact h a b (List.cons.inj he).2

theorem decode_eq_self_iff {cs : List Char} :
    decode cs = cs ↔ ∀ a b, cs = a ++ '&' :: b → cutReference? b = none := by
  fun_induction decode cs with
  | case1 => simp
  | case2 cs d rest h ih =>
    have hlt := length_lt_of_cutReference? h
    have hle := length_decode_le rest
    constructor
    · intro he
      have := congrArg List.length (List.cons.inj he).2
      omega
    · intro hn
      exact absurd (h.symm.trans (hn [] cs rfl)) nofun
  | case3 cs h ih => rw [List.cons_inj_right, ih, references_cons fun _ => h]
  | case4 c cs hc ih => rw [List.cons_inj_right, ih, references_cons fun he => absurd he hc]

/-- The value that is read of a text that is put between double quotes. -/
def quoted (cs : List Char) : List Char := decode (cs.takeWhile (· ≠ '"'))

theorem quoted_of_quote {a : List Char} (h : '"' ∉ a) (b : List Char) :
    quoted (a ++ '"' :: b) = decode a := by
  rw [quoted, takeWhile_append_of_stop _ (by simp)]
  exact fun c hc => decide_eq_true fun he => h (he ▸ hc)

theorem quoted_of_not_mem {cs : List Char} (h : '"' ∉ cs) : quoted cs = decode cs := by
  rw [quoted, List.takeWhile_eq_self_iff.mpr]
  exact fun c hc => decide_eq_true fun he => h (he ▸ hc)

/-- Between double quotes a text is read as itself exactly if it stands for itself. -/
theorem quoted_eq_self_iff {cs : List Char} : quoted cs = cs ↔ Verbatim cs := by
  constructor
  · intro h
    have hle := length_decode_le (cs.takeWhile (· ≠ '"'))
    have hlen := congrArg List.length h
    -- What is read is not longer than the part it is read of, so this part is the whole text.
    have heq : cs.takeWhile (· ≠ '"') = cs := by
      apply (List.takeWhile_prefix (· ≠ '"')).eq_of_length_le
      rw [quoted] at hlen
      omega
    have hq : '"' ∉ cs := by
      intro hq
      simpa using List.takeWhile_eq_self_iff.mp heq '"' hq
    exact ⟨hq, decode_eq_self_iff.mp (quoted_of_not_mem hq ▸ h)⟩
  · intro h
    rw [quoted_of_not_mem h.quote]
    exact decode_eq_self_iff.mpr h.reference

instance (cs : List Char) : Decidable (Verbatim cs) :=
  decidable_of_iff (quoted cs = cs) quoted_eq_self_iff

namespace Tag

theorem exists_value?_quote (v r : List Char) :
    ∃ rest, value? ('"' :: (v ++ '"' :: r)) = some (String.ofList (quoted v), rest) ∧
      ('"' ∉ v → rest = r) := by
  by_cases hq : '"' ∈ v
  · obtain ⟨a, b, rfl, ha⟩ := List.eq_append_cons_of_mem hq
    refine ⟨b ++ '"' :: r, ?_, fun h => absurd hq h⟩
    rw [List.append_assoc, List.cons_append, value?_quote ha, quoted_of_quote ha]
  · exact ⟨r, by rw [value?_quote hq, quoted_of_not_mem hq], fun _ => rfl⟩

theorem exists_attributes?_quote {name : String} (hne : name ≠ "")
    (h : Plain ['=', '>', '/'] name.toList) (v r : List Char) : ∃ rest,
      attributes? (' ' :: (name.toList ++ '=' :: '"' :: (v ++ '"' :: r))) =
        (attributes? rest).map (fun (as, selfClosing, rest) =>
          ((name, some (String.ofList (quoted v))) :: as, selfClosing, rest)) ∧
      ('"' ∉ v → rest = r) := by
  obtain ⟨rest, hvalue, hrest⟩ := exists_value?_quote v r
  obtain ⟨c, cs, hcs⟩ := List.exists_cons_of_ne_nil (String.toList_eq_nil_iff.not.mpr hne)
  rw [hcs] at h
  obtain ⟨hblank, -, hstops⟩ := h c List.mem_cons_self
  have htrim : trimStart (' ' :: (name.toList ++ '=' :: '"' :: (v ++ '"' :: r))) =
      c :: (cs ++ '=' :: '"' :: (v ++ '"' :: r)) := by
    rw [trimStart_cons_of_blank (by decide), hcs, List.cons_append,
      trimStart_cons_of_not_blank hblank]
  have hattribute := attributeAt?_of_value h hvalue
  rw [← hcs, String.ofList_toList] at hattribute
  refine ⟨rest, ?_, hrest⟩
  exact attributes?_of_attributeAt? htrim (by simp_all) (by simp_all) hattribute

end Tag

end Questionnaire.Markup

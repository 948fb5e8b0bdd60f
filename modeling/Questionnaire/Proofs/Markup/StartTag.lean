import Mathlib
import Questionnaire.Markup.Printer
import Questionnaire.Markup.Token
import Questionnaire.Proofs.Markup.Entity

/-! # Start tags

A well formed start tag is read back from its markup, whatever stands behind it.
Its names end where the reader ends them, and its values may hold any characters.
-/

namespace Questionnaire.Markup

open Text

/-- Characters without a blank, an upper case letter or one of the stops. -/
def Plain (stops cs : List Char) : Prop :=
  ∀ c ∈ cs, isBlank c = false ∧ c.isUpper = false ∧ c ∉ stops

instance (stops cs : List Char) : Decidable (Plain stops cs) :=
  List.decidableBAll _ cs

theorem Plain.map_toLower {stops cs : List Char} (h : Plain stops cs) :
    cs.map Char.toLower = cs := by
  have hc : ∀ c ∈ cs, c.toLower = id c := by
    intro c hc
    exact Char.toLower_eq_of_not_isUpper (Bool.eq_false_iff.mp (h c hc).2.1)
  rw [List.map_congr_left hc, List.map_id]

theorem Plain.lower_eq {stops cs : List Char} (h : Plain stops cs) :
    lower cs = String.ofList cs := by
  rw [lower, h.map_toLower]

theorem trimStart_cons_of_blank {c : Char} (h : isBlank c = true) (cs : List Char) :
    trimStart (c :: cs) = trimStart cs := by
  simp [trimStart, h]

theorem trimStart_cons_of_not_blank {c : Char} (h : isBlank c = false) (cs : List Char) :
    trimStart (c :: cs) = c :: cs := by
  simp [trimStart, h]

namespace Tag

structure WellFormed (t : Tag) : Prop where
  letter : ∃ c ∈ t.name.toList.head?, Token.isLetter c = true
  name : Plain ['/', '>'] t.name.toList
  attributes : ∀ a ∈ t.attributes, a.1 ≠ "" ∧ Plain ['=', '>', '/'] a.1.toList

theorem endsName_of_plain {cs : List Char} (h : Plain ['/', '>'] cs) :
    ∀ c ∈ cs, (!endsName c) = true := by
  intro c hc
  obtain ⟨hb, -, hs⟩ := h c hc
  simp_all [endsName]

theorem endsAttributeName_of_plain {cs : List Char} (h : Plain ['=', '>', '/'] cs) :
    ∀ c ∈ cs, (!endsAttributeName c) = true := by
  intro c hc
  obtain ⟨hb, -, hs⟩ := h c hc
  simp_all [endsAttributeName]

theorem attributes?_of_closed {cs r : List Char} (h : trimStart cs = '>' :: r) :
    attributes? cs = some ([], false, r) := by
  rw [attributes?]
  split <;> simp_all

theorem attributes?_of_attributeAt? {c : Char} {cs r rest : List Char}
    {a : String × Option String} (h : trimStart cs = c :: r) (hg : c ≠ '>') (hs : c ≠ '/')
    (ha : attributeAt? c r = some (a, rest)) :
    attributes? cs =
      (attributes? rest).map fun (as, selfClosing, rest) => (a :: as, selfClosing, rest) := by
  rw [attributes?]
  split
  · next h' => simp [h] at h'
  · next h' => exact absurd (List.cons.inj (h.symm.trans h')).1 hg
  · next h' => exact absurd (List.cons.inj (h.symm.trans h')).1 hs
  · next h' => exact absurd (List.cons.inj (h.symm.trans h')).1 hs
  · next h' =>
    obtain ⟨rfl, rfl⟩ := List.cons.inj (h.symm.trans h')
    split <;> simp_all

def valueChars : Option String → List Char
  | none => []
  | some v => '=' :: '"' :: escape v.toList ++ ['"']

theorem attributeChars_eq (name : String) (v : Option String) :
    attributeChars (name, v) = ' ' :: name.toList ++ valueChars v := by
  cases v <;> simp [attributeChars, valueChars]

theorem value?_quote {a : List Char} (h : '"' ∉ a) (r : List Char) :
    value? ('"' :: (a ++ '"' :: r)) = some (String.ofList (decode a), r) := by
  have hcut : cutAt? ['"'] (a ++ '"' :: r) = some (a, r) := by
    simpa using cutAt?_append (firstAt_singleton_iff.mpr h) r
  simp [value?, trimStart_cons_of_not_blank, isBlank, quotedValue?, hcut]

theorem value?_quoted (v : String) (r : List Char) :
    value? ('"' :: escape v.toList ++ '"' :: r) = some (v, r) := by
  rw [List.cons_append, value?_quote (quote_not_mem_escape v.toList), decode_escape,
    String.ofList_toList]

section AttributeAt

variable {c d : Char} {cs r : List Char}

theorem cut_attributeName (h : Plain ['=', '>', '/'] (c :: cs)) (hd : endsAttributeName d = true)
    (r : List Char) : c ≠ '=' ∧ (cs ++ d :: r).takeWhile (!endsAttributeName ·) = cs ∧
      (cs ++ d :: r).dropWhile (!endsAttributeName ·) = d :: r := by
  have hc : c ≠ '=' := by
    rintro rfl
    exact (h '=' List.mem_cons_self).2.2 List.mem_cons_self
  have hcs := endsAttributeName_of_plain fun x hx => h x (List.mem_cons_of_mem c hx)
  have hd : ∀ x ∈ (d :: r).head?, (!endsAttributeName x) = false := by simp [hd]
  exact ⟨hc, takeWhile_append_of_stop hcs hd, dropWhile_append_of_stop hcs hd⟩

theorem attributeAt?_of_stop (h : Plain ['=', '>', '/'] (c :: cs))
    (hd : endsAttributeName d = true) (hr : (trimStart (d :: r)).head? ≠ some '=') :
    attributeAt? c (cs ++ d :: r) = some ((String.ofList (c :: cs), none), d :: r) := by
  obtain ⟨hc, ht, hb⟩ := cut_attributeName h hd r
  rw [attributeAt?, if_neg hc, ht, hb, h.lower_eq]
  dsimp only
  split
  · next hr' => exact absurd (congrArg List.head? hr') hr
  · rfl

theorem attributeAt?_of_value {v : String} {rest : List Char}
    (h : Plain ['=', '>', '/'] (c :: cs)) (hv : value? r = some (v, rest)) :
    attributeAt? c (cs ++ '=' :: r) = some ((String.ofList (c :: cs), some v), rest) := by
  obtain ⟨hc, ht, hb⟩ := cut_attributeName h (d := '=') (by decide) r
  have he : trimStart ('=' :: r) = '=' :: r := trimStart_cons_of_not_blank (by decide) r
  rw [attributeAt?, if_neg hc, ht, hb, h.lower_eq]
  simp only [he, hv, Option.map_some]

theorem attributeAt?_printed (v : Option String) (h : Plain ['=', '>', '/'] (c :: cs))
    (hd : endsAttributeName d = true) (hr : (trimStart (d :: r)).head? ≠ some '=') :
    attributeAt? c (cs ++ (valueChars v ++ d :: r)) =
      some ((String.ofList (c :: cs), v), d :: r) := by
  cases v with
  | none => exact attributeAt?_of_stop h hd hr
  | some v =>
    have hv := value?_quoted v (d :: r)
    simpa [valueChars] using attributeAt?_of_value h hv

end AttributeAt

/-- The attributes behind a name and the bracket that closes their tag. -/
def restChars (as : List (String × Option String)) (r : List Char) : List Char :=
  as.flatMap attributeChars ++ '>' :: r

theorem restChars_cons (name : String) (v : Option String) (as : List (String × Option String))
    (r : List Char) : restChars ((name, v) :: as) r =
      ' ' :: (name.toList ++ (valueChars v ++ restChars as r)) := by
  simp [restChars, attributeChars_eq]

theorem exists_restChars {as : List (String × Option String)}
    (h : ∀ a ∈ as, a.1 ≠ "" ∧ Plain ['=', '>', '/'] a.1.toList) (r : List Char) :
    ∃ d cs, restChars as r = d :: cs ∧ endsAttributeName d = true ∧ endsName d = true ∧
      (trimStart (d :: cs)).head? ≠ some '=' := by
  cases as with
  | nil => exact ⟨'>', r, rfl, by decide, by decide, by simp [trimStart, isBlank]⟩
  | cons a as =>
    refine ⟨' ', _, restChars_cons a.1 a.2 as r, by decide, by decide, ?_⟩
    obtain ⟨hne, hp⟩ := h a List.mem_cons_self
    obtain ⟨c, cs, hcs⟩ := List.exists_cons_of_ne_nil (String.toList_eq_nil_iff.not.mpr hne)
    rw [hcs] at hp ⊢
    obtain ⟨hb, -, hs⟩ := hp c List.mem_cons_self
    rw [trimStart_cons_of_blank (by decide), List.cons_append, trimStart_cons_of_not_blank hb]
    simp_all

theorem attributes?_restChars {as : List (String × Option String)}
    (h : ∀ a ∈ as, a.1 ≠ "" ∧ Plain ['=', '>', '/'] a.1.toList) (r : List Char) :
    attributes? (restChars as r) = some (as, false, r) := by
  induction as with
  | nil => exact attributes?_of_closed (trimStart_cons_of_not_blank (by decide) r)
  | cons a as ih =>
    obtain ⟨name, v⟩ := a
    obtain ⟨hne, hp⟩ := h (name, v) List.mem_cons_self
    have has := fun b hb => h b (List.mem_cons_of_mem _ hb)
    obtain ⟨c, cs, hcs⟩ := List.exists_cons_of_ne_nil (String.toList_eq_nil_iff.not.mpr hne)
    obtain ⟨d, ds, hds, hd, -, hr⟩ := exists_restChars has r
    simp only [hcs] at hp
    obtain ⟨hb, -, hs⟩ := hp c List.mem_cons_self
    have ht : trimStart (restChars ((name, v) :: as) r) =
        c :: (cs ++ (valueChars v ++ restChars as r)) := by
      rw [restChars_cons, trimStart_cons_of_blank (by decide), hcs, List.cons_append,
        trimStart_cons_of_not_blank hb]
    have ha : attributeAt? c (cs ++ (valueChars v ++ restChars as r)) =
        some ((name, v), restChars as r) := by
      rw [hds, attributeAt?_printed v hp hd hr, ← hcs, String.ofList_toList]
    rw [attributes?_of_attributeAt? ht (by simp_all) (by simp_all) ha, ih has]
    rfl

theorem ofChars?_append {name r : List Char} (h : Plain ['/', '>'] name)
    (hr : ∀ x ∈ r.head?, endsName x = true) :
    ofChars? (name ++ r) = (attributes? r).map fun (as, selfClosing, rest) =>
      (⟨String.ofList name, as⟩, selfClosing, rest) := by
  have hn := endsName_of_plain h
  have hr : ∀ x ∈ r.head?, (!endsName x) = false := by simpa using hr
  rw [ofChars?, takeWhile_append_of_stop hn hr, dropWhile_append_of_stop hn hr, h.lower_eq]

/-- A well formed start tag is read back behind its bracket. -/
theorem ofChars?_printed {t : Tag} (h : t.WellFormed) (r : List Char) :
    ofChars? (t.name.toList ++ restChars t.attributes r) = some (t, false, r) := by
  obtain ⟨d, ds, hds, -, hd, -⟩ := exists_restChars h.attributes r
  have hr : ∀ x ∈ (restChars t.attributes r).head?, endsName x = true := by simp [hds, hd]
  rw [ofChars?_append h.name hr, attributes?_restChars h.attributes, String.ofList_toList]
  rfl

end Tag

end Questionnaire.Markup

import Mathlib.Data.List.Forall2
import Questionnaire.Markup.Token

/-! # The source of a token

Every token is read from a part of the markup that is not empty, and the parts of all tokens in
their order make up the markup: the scan passes over nothing and reads nothing twice.
-/

namespace Questionnaire.Markup

open Text

namespace Tag

variable {cs rest : List Char}

theorem trimStart_suffix (cs : List Char) : trimStart cs <:+ cs := List.dropWhile_suffix _

theorem suffix_of_quotedValue? {quote : Char} {v : String}
    (h : quotedValue? quote cs = some (v, rest)) : rest <:+ cs := by
  simp only [quotedValue?, Option.map_eq_some_iff, Prod.mk.injEq] at h
  obtain ⟨⟨a, _⟩, h, _, rfl⟩ := h
  exact ⟨a ++ [quote], (eq_append_of_cutAt? h).symm⟩

theorem suffix_of_value? {v : String} (h : value? cs = some (v, rest)) : rest <:+ cs := by
  refine .trans ?_ (trimStart_suffix cs)
  rw [value?] at h
  split at h
  · next r hr => exact hr ▸ (suffix_of_quotedValue? h).trans (List.suffix_cons _ r)
  · next r hr => exact hr ▸ (suffix_of_quotedValue? h).trans (List.suffix_cons _ r)
  · obtain ⟨_, rfl⟩ := Prod.mk.inj (Option.some.inj h)
    exact List.dropWhile_suffix _

theorem suffix_of_attributeAt? {c : Char} {a : String × Option String}
    (h : attributeAt? c cs = some (a, rest)) : rest <:+ cs := by
  rw [attributeAt?] at h
  split at h
  · simp only [Option.map_eq_some_iff, Prod.mk.injEq] at h
    obtain ⟨⟨_, _⟩, h, _, rfl⟩ := h
    exact suffix_of_value? h
  · simp only at h
    refine .trans ?_ (List.dropWhile_suffix (!endsAttributeName ·) (l := cs))
    split at h
    · next r hr =>
      simp only [Option.map_eq_some_iff, Prod.mk.injEq] at h
      obtain ⟨⟨_, _⟩, h, _, rfl⟩ := h
      have hbehind := trimStart_suffix (cs.dropWhile (!endsAttributeName ·))
      rw [hr] at hbehind
      exact (suffix_of_value? h).trans ((List.suffix_cons _ r).trans hbehind)
    · obtain ⟨_, rfl⟩ := Prod.mk.inj (Option.some.inj h)
      exact List.suffix_rfl

theorem exists_of_attributes? {as : List (String × Option String)} {selfClosing : Bool}
    (h : attributes? cs = some (as, selfClosing, rest)) : ∃ a, cs = a ++ '>' :: rest := by
  have hlead {r a cs' : List Char} (hr : r <:+ cs') (ha : r = a ++ '>' :: rest) :
      ∃ a, cs' = a ++ '>' :: rest := by
    obtain ⟨b, rfl⟩ := hr
    exact ⟨b ++ a, by simp [ha]⟩
  fun_induction attributes? cs generalizing as selfClosing rest with
  | case1 cs ht => cases h
  | case2 cs r ht =>
    obtain ⟨-, -, rfl⟩ := by simpa using h
    exact hlead (a := []) (trimStart_suffix cs) ht
  | case3 cs r ht =>
    obtain ⟨-, -, rfl⟩ := by simpa using h
    exact hlead (a := ['/']) (trimStart_suffix cs) ht
  | case4 cs r _ ht ih =>
    obtain ⟨a, ha⟩ := ih h hlead
    exact hlead (a := '/' :: a) (trimStart_suffix cs) (by rw [ht, ha]; rfl)
  | case5 cs c r _ _ _ ht hattr => cases h
  | case6 cs c r _ _ _ ht a behind hattr ih =>
    simp only [Option.map_eq_some_iff, Prod.mk.injEq] at h
    obtain ⟨⟨bs, sc, rest'⟩, h, -, -, rfl⟩ := h
    obtain ⟨a, ha⟩ := ih h hlead
    have hbehind := ((suffix_of_attributeAt? hattr).trans (List.suffix_cons c r)).trans
      (ht ▸ trimStart_suffix cs)
    exact hlead hbehind ha

theorem exists_of_ofChars? {t : Tag} {selfClosing : Bool}
    (h : ofChars? cs = some (t, selfClosing, rest)) : ∃ a, cs = a ++ '>' :: rest := by
  simp only [ofChars?, Option.map_eq_some_iff, Prod.mk.injEq] at h
  obtain ⟨⟨as, sc, rest'⟩, h, -, -, rfl⟩ := h
  obtain ⟨a, ha⟩ := exists_of_attributes? h
  obtain ⟨b, hb⟩ := List.dropWhile_suffix (!endsName ·) (l := cs)
  exact ⟨b ++ a, by rw [← hb, ha, List.append_assoc]⟩

end Tag

namespace Token

def ofBody (b : List Char) : List Token := if b.isEmpty then [] else [.text (String.ofList b)]

@[simp] theorem ofBody_nil : ofBody [] = [] := rfl

@[simp] theorem ofBody_cons (c : Char) (b : List Char) :
    ofBody (c :: b) = [.text (String.ofList (c :: b))] := rfl

/-- A token and the part of the markup that it is read from, closed or not. A start tag is read in
front of what follows it, and a text may be any part that is not empty. -/
inductive Source : Token → List Char → Prop where
  | comment {body : List Char} :
      Source (.comment (String.ofList body)) ("<!--".toList ++ body ++ "-->".toList)
  | unclosedComment {body : List Char} :
      Source (.comment (String.ofList body)) ("<!--".toList ++ body)
  | declaration {d : Char} {cs : List Char} : d = '!' ∨ d = '?' →
      Source (.declaration (String.ofList ('<' :: d :: cs))) ('<' :: d :: cs)
  | close {name : List Char} :
      Source (.close (lower (trim name))) ("</".toList ++ name ++ ['>'])
  | unclosedClose {name : List Char} : Source (.close (lower (trim name))) ("</".toList ++ name)
  | start {tag : Tag} {selfClosing : Bool} {a : List Char} (rest : List Char) :
      Tag.ofChars? (a ++ '>' :: rest) = some (tag, selfClosing, rest) →
      Source (.start tag selfClosing) ('<' :: a ++ ['>'])
  | text {cs : List Char} : cs ≠ [] → Source (.text (String.ofList cs)) cs

theorem Source.ne_nil {t : Token} {cs : List Char} (h : Source t cs) : cs ≠ [] := by
  cases h <;> simp_all

variable {c : Char} {cs rest : List Char} {t : Token}

theorem exists_source_textAt (h : textAt c cs = (t, rest)) :
    ∃ s, c :: cs = s ++ rest ∧ Source t s := by
  simp only [textAt, Prod.mk.injEq] at h
  obtain ⟨rfl, rfl⟩ := h
  exact ⟨c :: cs.takeWhile (· ≠ '<'), by simp, .text (List.cons_ne_nil _ _)⟩

theorem exists_source_commentAt (h : commentAt cs = (t, rest)) :
    ∃ s, "<!--".toList ++ cs = s ++ rest ∧ Source t s := by
  rw [commentAt] at h
  split at h
  · next body rest' hcut =>
    obtain ⟨rfl, rfl⟩ := Prod.mk.inj h
    exact ⟨_, by simp [eq_append_of_cutAt? hcut], .comment⟩
  · obtain ⟨rfl, rfl⟩ := Prod.mk.inj h
    exact ⟨_, by simp, .unclosedComment⟩

theorem exists_source_closeAt (h : closeAt cs = (t, rest)) :
    ∃ s, "</".toList ++ cs = s ++ rest ∧ Source t s := by
  rw [closeAt] at h
  split at h
  · next name rest' hcut =>
    obtain ⟨rfl, rfl⟩ := Prod.mk.inj h
    exact ⟨_, by simp [eq_append_of_cutAt? hcut], .close⟩
  · obtain ⟨rfl, rfl⟩ := Prod.mk.inj h
    exact ⟨_, by simp, .unclosedClose⟩

theorem exists_source_declarationAt {d : Char} (hd : d = '!' ∨ d = '?')
    (h : declarationAt (d :: cs) = (t, rest)) :
    ∃ s, '<' :: d :: cs = s ++ rest ∧ Source t s := by
  rw [declarationAt] at h
  split at h
  · next body rest' hcut =>
    obtain ⟨rfl, rfl⟩ := Prod.mk.inj h
    have he := eq_append_of_cutAt? hcut
    cases body with
    | nil => rcases hd with rfl | rfl <;> cases he
    | cons x body =>
      obtain ⟨rfl, rfl⟩ := List.cons.inj he
      exact ⟨_, by simp, .declaration hd⟩
  · obtain ⟨rfl, rfl⟩ := Prod.mk.inj h
    exact ⟨_, by simp, .declaration hd⟩

theorem exists_source_next (h : next c cs = (t, rest)) : ∃ s, c :: cs = s ++ rest ∧ Source t s := by
  rw [next.eq_def] at h
  split at h
  · next hc =>
    subst hc
    split at h
    · exact exists_source_commentAt h
    · exact exists_source_declarationAt (.inl rfl) h
    · exact exists_source_declarationAt (.inr rfl) h
    · exact exists_source_closeAt h
    · split at h
      · split at h
        · next tag selfClosing rest' ht =>
          obtain ⟨rfl, rfl⟩ := Prod.mk.inj h
          obtain ⟨a, ha⟩ := Tag.exists_of_ofChars? ht
          rw [ha] at ht ⊢
          exact ⟨_, by simp, .start _ ht⟩
        · exact exists_source_textAt h
      · exact exists_source_textAt h
    · exact exists_source_textAt h
  · exact exists_source_textAt h

/-- The tokens of a markup are read from its parts, in their order. -/
theorem exists_sources (cs : List Char) :
    ∃ slices, List.Forall₂ Source (all cs) slices ∧ slices.flatten = cs := by
  fun_induction all cs with
  | case1 => exact ⟨[], .nil, rfl⟩
  | case2 c cs t behind hn b rest hb ih =>
    obtain ⟨slices, hslices, rfl⟩ := ih
    obtain ⟨s, hs, hsource⟩ := exists_source_next hn
    rw [hs, append_of_body hb]
    by_cases hbody : b = []
    · exact ⟨s :: slices, by simpa [hbody] using ⟨hsource, hslices⟩, by simp [hbody]⟩
    · refine ⟨s :: b :: slices, ?_, by simp⟩
      simpa [hbody] using ⟨hsource, .text hbody, hslices⟩

end Token

end Questionnaire.Markup

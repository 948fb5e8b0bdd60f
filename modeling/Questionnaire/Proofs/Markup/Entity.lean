import Questionnaire.Markup.Entity
import Questionnaire.Proofs.Text.Search

/-! # Escaped values

A value may hold any characters. Escaped it holds no double quote, so it ends at
the quote behind it, and every reference in it is read back as its character.
-/

namespace Questionnaire.Markup

open Text

theorem escape_cons (c : Char) (cs : List Char) : escape (c :: cs) = escapeChar c ++ escape cs :=
  List.flatMap_cons

theorem escapeChar_of_ne {c : Char} (ha : c ≠ '&') (hl : c ≠ '<') (hg : c ≠ '>') (hq : c ≠ '"') :
    escapeChar c = [c] := by
  rw [escapeChar.eq_def]
  split <;> simp_all

theorem quote_not_mem_escapeChar (c : Char) : '"' ∉ escapeChar c := by
  rw [escapeChar.eq_def]
  split
  · decide
  · decide
  · decide
  · decide
  · next hq => simpa using fun h => hq h.symm

theorem quote_not_mem_escape (cs : List Char) : '"' ∉ escape cs := by
  simp [escape, quote_not_mem_escapeChar]

theorem decode_nil : decode [] = [] := by rw [decode.eq_def]

theorem decode_cons_of_ne {c : Char} (h : c ≠ '&') (cs : List Char) :
    decode (c :: cs) = c :: decode cs := by
  rw [decode.eq_def]
  simp [h]

theorem decode_of_cutReference? {c : Char} {cs r : List Char}
    (h : cutReference? cs = some (c, r)) : decode ('&' :: cs) = c :: decode r := by
  rw [decode.eq_def]
  simp only [if_true]
  split <;> simp_all

theorem decode_reference (name : List Char) {c : Char} (hn : ';' ∉ name)
    (hc : reference? name = some c) (cs : List Char) :
    decode ('&' :: name ++ ';' :: cs) = c :: decode cs := by
  have hcut : cutAt? [';'] (name ++ ';' :: cs) = some (name, cs) := by
    simpa using cutAt?_append (firstAt_singleton_iff.mpr hn) cs
  exact decode_of_cutReference? (by simp [cutReference?, hcut, hc])

theorem decode_escapeChar (c : Char) (cs : List Char) :
    decode (escapeChar c ++ cs) = c :: decode cs := by
  by_cases ha : c = '&'
  · exact ha ▸ decode_reference "amp".toList (by decide) rfl cs
  by_cases hl : c = '<'
  · exact hl ▸ decode_reference "lt".toList (by decide) rfl cs
  by_cases hg : c = '>'
  · exact hg ▸ decode_reference "gt".toList (by decide) rfl cs
  by_cases hq : c = '"'
  · exact hq ▸ decode_reference "quot".toList (by decide) rfl cs
  · rw [escapeChar_of_ne ha hl hg hq, List.singleton_append, decode_cons_of_ne ha]

@[simp] theorem decode_escape (cs : List Char) : decode (escape cs) = cs := by
  induction cs with
  | nil => exact decode_nil
  | cons c cs ih => rw [escape_cons, decode_escapeChar, ih]

end Questionnaire.Markup

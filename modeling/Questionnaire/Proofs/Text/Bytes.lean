import Questionnaire.Proofs.Placeholder.Slice
import Questionnaire.Proofs.Text.Search

/-! # Slices at byte offsets

A text is searched and sliced by byte offsets. A slice is none where one of its ends is behind the
end of the text or inside of a character. The offset of what is left of a text is one at which the
text can be sliced.
-/

namespace Questionnaire.Text

def takeBytes? (cs : List Char) (n : Nat) : Option (List Char) := (cutBytes? n cs).map Prod.fst

def dropBytes? (cs : List Char) (n : Nat) : Option (List Char) := (cutBytes? n cs).map Prod.snd

/-- The slice of a range, none also if it ends in front of its start. -/
def range? (cs : List Char) (start stop : Nat) : Option (List Char) :=
  if start ≤ stop then slice? cs start stop else none

def sub? (m n : Nat) : Option Nat := if n ≤ m then some (m - n) else none

/-- The offset of the first character that meets a test. -/
def find? (p : Char → Bool) (cs : List Char) : Option Nat :=
  if cs.any p then some (utf8Length (cs.takeWhile (!p ·))) else none

def findMark? (m cs : List Char) : Option Nat := (cutAt? m cs).map (utf8Length ·.1)

/-- The offset is at the start or the end of the text or between two of its characters. -/
def IsBoundary (cs : List Char) (n : Nat) : Prop := ∃ a b, cs = a ++ b ∧ utf8Length a = n

/-- The offset at which the rest of a text begins. -/
def offset (cs rest : List Char) : Nat := utf8Length cs - utf8Length rest

variable {cs rest a b : List Char} {n : Nat}

theorem offset_append (a b : List Char) : offset (a ++ b) b = utf8Length a := by simp [offset]

theorem isBoundary_iff : IsBoundary cs n ↔ ∃ rest, rest <:+ cs ∧ offset cs rest = n := by
  constructor
  · rintro ⟨a, b, rfl, rfl⟩
    exact ⟨b, List.suffix_append a b, offset_append a b⟩
  · rintro ⟨b, ⟨a, rfl⟩, rfl⟩
    exact ⟨a, b, rfl, (offset_append a b).symm⟩

theorem IsBoundary.le (h : IsBoundary cs n) : n ≤ utf8Length cs := by
  obtain ⟨a, b, rfl, rfl⟩ := h
  simp

theorem utf8Length_le_of_suffix (h : rest <:+ cs) : utf8Length rest ≤ utf8Length cs := by
  obtain ⟨a, rfl⟩ := h
  simp

theorem offset_self (cs : List Char) : offset cs cs = 0 := Nat.sub_self _

theorem offset_trans {r : List Char} (h : r <:+ cs) (hr : rest <:+ r) :
    offset cs r + offset r rest = offset cs rest := by
  have := utf8Length_le_of_suffix h
  have := utf8Length_le_of_suffix hr
  simp only [offset]
  omega

theorem offset_add (h : a ++ rest <:+ cs) :
    offset cs (a ++ rest) + utf8Length a = offset cs rest := by
  rw [← offset_append a rest]
  exact offset_trans h (List.suffix_append a rest)

theorem offset_end (h : rest <:+ cs) : offset cs rest + utf8Length rest = offset cs [] := by
  have := utf8Length_le_of_suffix h
  simp only [offset, utf8Length_nil]
  omega

theorem offset_lt {r : List Char} (h : r <:+ cs) (hr : rest <:+ r) (hne : rest ≠ r) :
    offset cs r < offset cs rest := by
  rw [← offset_trans h hr]
  obtain ⟨a, rfl⟩ := hr
  have ha : a ≠ [] := by
    rintro rfl
    exact hne rfl
  have := utf8Length_pos ha
  rw [offset_append]
  omega

theorem takeBytes?_append (a b : List Char) : takeBytes? (a ++ b) (utf8Length a) = some a := by
  rw [takeBytes?, cutBytes?_append]
  rfl

theorem dropBytes?_append (a b : List Char) : dropBytes? (a ++ b) (utf8Length a) = some b := by
  rw [dropBytes?, cutBytes?_append]
  rfl

theorem dropBytes?_offset (h : rest <:+ cs) : dropBytes? cs (offset cs rest) = some rest := by
  obtain ⟨a, rfl⟩ := h
  rw [offset_append, dropBytes?_append]

theorem range?_append (a t b : List Char) :
    range? (a ++ t ++ b) (utf8Length a) (utf8Length a + utf8Length t) = some t := by
  rw [range?, if_pos (Nat.le_add_right _ _), slice?_append]

theorem sub?_suffix (h : rest <:+ cs) :
    sub? (utf8Length cs) (utf8Length rest) = some (offset cs rest) :=
  if_pos (utf8Length_le_of_suffix h)

theorem findMark?_append {m a : List Char} (h : FirstAt m a) (b : List Char) :
    findMark? m (a ++ m ++ b) = some (utf8Length a) := by
  rw [findMark?, cutAt?_append h]
  rfl

theorem findMark?_eq_none_iff {m : List Char} : findMark? m cs = none ↔ ¬ m <:+: cs := by
  rw [findMark?, Option.map_eq_none_iff, cutAt?_eq_none_iff]

theorem findMark?_cons {m : List Char} {c : Char} (h : ¬ m <+: c :: cs) :
    findMark? m (c :: cs) = (findMark? m cs).map (c.utf8Size + ·) := by
  rw [findMark?, cutAt?, dropMark?_eq_none_iff.mpr h, findMark?, Option.map_map, Option.map_map]
  rfl

theorem findMark?_of_prefix {m : List Char} (h : m <+: cs) : findMark? m cs = some 0 := by
  obtain ⟨r, rfl⟩ := h
  rw [findMark?, cutAt?_of_dropMark? (dropMark?_append m r)]
  rfl

theorem find?_getD (p : Char → Bool) (cs : List Char) :
    (find? p cs).getD (utf8Length cs) = utf8Length (cs.takeWhile (!p ·)) := by
  rw [find?]
  split
  · rfl
  · next h =>
    have hall : cs.takeWhile (!p ·) = cs := by
      simpa using takeWhile_append_of_stop (a := cs) (b := []) (p := (!p ·)) (by simpa using h)
    rw [hall]
    rfl

theorem takeBytes?_find? (p : Char → Bool) (cs : List Char) :
    takeBytes? cs ((find? p cs).getD (utf8Length cs)) = some (cs.takeWhile (!p ·)) := by
  have h := takeBytes?_append (cs.takeWhile (!p ·)) (cs.dropWhile (!p ·))
  rwa [List.takeWhile_append_dropWhile, ← find?_getD] at h

theorem offset_dropWhile (p : Char → Bool) (cs : List Char) :
    offset cs (cs.dropWhile (!p ·)) = (find? p cs).getD (utf8Length cs) := by
  have h := offset_append (cs.takeWhile (!p ·)) (cs.dropWhile (!p ·))
  rwa [List.takeWhile_append_dropWhile, ← find?_getD] at h

end Questionnaire.Text

import Questionnaire.Proofs.Text.Search
import Questionnaire.Text.Blank

/-! # Words

The words of a text are its parts without blanks that have a blank or an end of the text on either
side.
-/

namespace Questionnaire.Text

variable {w cs : List Char}

/-- A part of a text that is one of its words. -/
def IsWord (w cs : List Char) : Prop :=
  w ≠ [] ∧ (∀ c ∈ w, isBlank c = false) ∧ ∃ a b, cs = a ++ w ++ b ∧
    (∀ c ∈ a.getLast?, isBlank c = true) ∧ ∀ c ∈ b.head?, isBlank c = true

theorem not_isWord_nil : ¬ IsWord w [] := by
  rintro ⟨hne, -, a, b, h, -⟩
  simp_all

theorem isWord_cons_of_blank {c : Char} (hc : isBlank c = true) :
    IsWord w (c :: cs) ↔ IsWord w cs := by
  constructor
  · rintro ⟨hne, hw, a, b, h, ha, hb⟩
    cases a with
    | nil =>
      obtain ⟨x, xs, rfl⟩ := List.exists_cons_of_ne_nil hne
      obtain ⟨rfl, -⟩ := List.cons.inj h
      rw [hw c List.mem_cons_self] at hc
      cases hc
    | cons x a =>
      obtain ⟨rfl, rfl⟩ := List.cons.inj h
      refine ⟨hne, hw, a, b, rfl, fun d hd => ha d ?_, hb⟩
      rw [List.getLast?_cons, Option.mem_def.mp hd]
      rfl
  · rintro ⟨hne, hw, a, b, rfl, ha, hb⟩
    refine ⟨hne, hw, c :: a, b, rfl, fun d hd => ?_, hb⟩
    rw [List.getLast?_cons] at hd
    cases hlast : a.getLast? with
    | none =>
      rw [hlast] at hd
      obtain rfl : c = d := Option.some.inj hd
      exact hc
    | some x =>
      rw [hlast] at hd
      obtain rfl : x = d := Option.some.inj hd
      exact ha x hlast

/-- Where a text begins with a run without blanks, the run is a word, and the others are behind. -/
theorem isWord_append {run : List Char} (hne : run ≠ []) (hrun : ∀ c ∈ run, isBlank c = false)
    (hcs : ∀ c ∈ cs.head?, isBlank c = true) : IsWord w (run ++ cs) ↔ w = run ∨ IsWord w cs := by
  constructor
  · rintro ⟨hne', hw, a, b, h, ha, hb⟩
    rw [List.append_assoc] at h
    cases a with
    | nil =>
      have hlong := congrArg (List.takeWhile (!isBlank ·)) h
      rw [takeWhile_append_of_stop (by simpa using hrun) (by simpa using hcs), List.nil_append,
        takeWhile_append_of_stop (by simpa using hw) (by simpa using hb)] at hlong
      exact .inl hlong.symm
    | cons x a =>
      rcases List.append_eq_append_iff.mp h with ⟨a', ha', rfl⟩ | ⟨a', rfl, -⟩
      · refine .inr ⟨hne', hw, a', b, by simp, fun c hc => ha c ?_, hb⟩
        rw [ha', List.getLast?_append, Option.mem_def.mp hc]
        rfl
      · -- A blank would end the run before its end.
        have hlast := List.getLast?_eq_some_getLast (List.cons_ne_nil x a)
        have hblank := ha _ hlast
        rw [hrun _ (List.mem_append_left _ (List.mem_of_getLast? hlast))] at hblank
        cases hblank
  · rintro (rfl | ⟨hne', hw, a, b, rfl, ha, hb⟩)
    · exact ⟨hne, hrun, [], cs, rfl, by simp, hcs⟩
    · refine ⟨hne', hw, run ++ a, b, by simp, fun c hc => ?_, hb⟩
      cases a with
      | nil =>
        -- no word begins where the text behind the run does
        obtain ⟨x, xs, rfl⟩ := List.exists_cons_of_ne_nil hne'
        have hx := hcs x rfl
        rw [hw x List.mem_cons_self] at hx
        cases hx
      | cons x a =>
        rw [List.getLast?_append_of_ne_nil _ (List.cons_ne_nil x a)] at hc
        exact ha c hc

theorem mem_words_iff : w ∈ words cs ↔ IsWord w cs := by
  fun_induction words cs with
  | case1 => simp [not_isWord_nil]
  | case2 c r hc ih => rw [ih, isWord_cons_of_blank hc]
  | case3 c r hc ih =>
    have hrun : ∀ x ∈ c :: r.takeWhile (!isBlank ·), isBlank x = false := by
      intro x hx
      rcases List.mem_cons.mp hx with rfl | hx
      · simpa using hc
      · simpa using List.all_eq_true.mp List.all_takeWhile x hx
    have hbehind : ∀ x ∈ (r.dropWhile (!isBlank ·)).head?, isBlank x = true := by
      intro x hx
      have hhead := List.head?_dropWhile_not (!isBlank ·) r
      rw [Option.mem_def.mp hx] at hhead
      simpa using hhead
    have happend : c :: r = (c :: r.takeWhile (!isBlank ·)) ++ r.dropWhile (!isBlank ·) := by simp
    rw [List.mem_cons, ih, ← isWord_append (List.cons_ne_nil _ _) hrun hbehind, ← happend]

end Questionnaire.Text

import Questionnaire.Preview
import Questionnaire.Proofs.Text.Search

/-! # Lines and commands

The input of a preview is a list of lines, and a line may be a command: a verb with what is behind
it. Both readings are met by relations that say how lines end and how commands are written.
-/

namespace Questionnaire

namespace Command

variable {line verb argument : String} {command : Command}

/-- The verb of a line goes up to the first space, and what is behind it is the argument. -/
def Words (line verb argument : String) : Prop :=
  ' ' ∉ verb.toList ∧ ∃ behind, Text.trim line.toList = verb.toList ++ behind ∧
    (∀ c ∈ behind.head?, c = ' ') ∧ argument = String.ofList (Text.trim behind)

theorem split_eq_iff : split line = (verb, argument) ↔ Words line verb argument := by
  simp only [split, Prod.mk.injEq, Words]
  generalize Text.trim line.toList = cs
  constructor
  · rintro ⟨rfl, rfl⟩
    rw [String.toList_ofList]
    refine ⟨fun h => by simpa using List.all_eq_true.mp List.all_takeWhile _ h,
      cs.dropWhile (· ≠ ' '), List.takeWhile_append_dropWhile.symm, fun c hc => ?_, rfl⟩
    have hhead := List.head?_dropWhile_not (fun c : Char => decide (c ≠ ' ')) cs
    rw [Option.mem_def.mp hc] at hhead
    simpa using hhead
  · rintro ⟨hverb, behind, rfl, hbehind, rfl⟩
    have hword : ∀ c ∈ verb.toList, decide (c ≠ ' ') = true :=
      fun c hc => decide_eq_true fun he => hverb (he ▸ hc)
    have hstop : ∀ c ∈ behind.head?, decide (c ≠ ' ') = false :=
      fun c hc => by simpa using hbehind c hc
    rw [Text.takeWhile_append_of_stop hword hstop, Text.dropWhile_append_of_stop hword hstop]
    exact ⟨String.ofList_toList, rfl⟩

/-- The commands as they are written. An option to click on is not empty, and a verb that takes no
argument may have one. -/
inductive Written (line : String) : Command → Prop where
  | click {argument : String} : Words line "click" argument → argument ≠ "" →
      Written line (.interact (.click argument))
  | input {argument : String} : Words line "input" argument →
      Written line (.interact (.input argument))
  | submit {argument : String} : Words line "submit" argument →
      Written line (.interact (.submit argument))
  | confirm {argument : String} : Words line "confirm" argument → Written line (.interact .confirm)
  | print {argument : String} : Words line "show" argument → Written line .print
  | quit {argument : String} : Words line "quit" argument → Written line .quit
  | exit {argument : String} : Words line "exit" argument → Written line .quit

theorem ofLine?_eq_some_iff : ofLine? line = some command ↔ Written line command := by
  constructor
  · intro h
    rcases hs : split line with ⟨verb, argument⟩
    have hwords := split_eq_iff.mp hs
    rw [ofLine?, hs] at h
    simp only at h
    split at h
    · split at h
      · cases h
      · next hne =>
        obtain rfl := Option.some.inj h
        exact .click hwords (by simpa using hne)
    all_goals cases h
    · exact .input hwords
    · exact .submit hwords
    · exact .confirm hwords
    · exact .print hwords
    · exact .quit hwords
    · exact .exit hwords
  · intro h
    cases h with
    | click hwords hne =>
      rw [ofLine?, split_eq_iff.mpr hwords]
      simpa using hne
    | input hwords | submit hwords | confirm hwords | print hwords | quit hwords | exit hwords =>
      rw [ofLine?, split_eq_iff.mpr hwords]
      rfl

end Command

namespace Preview

variable {l rest : List Char}

/-- The lines of a text. A line feed ends a line, with a carriage return in front of it that is no
part of the line; behind the last one there is no line without a character. -/
inductive Lines : List Char → List String → Prop where
  | nil : Lines [] []
  | last {l : List Char} : l ≠ [] → '\n' ∉ l → Lines l [String.ofList l]
  | feed {l rest : List Char} {ls : List String} : '\n' ∉ l → l.getLast? ≠ some '\r' →
      Lines rest ls → Lines (l ++ '\n' :: rest) (String.ofList l :: ls)
  | returned {l rest : List Char} {ls : List String} : '\n' ∉ l → Lines rest ls →
      Lines (l ++ '\r' :: '\n' :: rest) (String.ofList l :: ls)

theorem lines_of_not_mem (h : '\n' ∉ l) :
    lines (String.ofList l) = if l = [] then [] else [String.ofList l] := by
  have hl : ∀ c ∈ l, (c == '\n') = false := fun c hc => by
    simpa using fun he : c = '\n' => h (he ▸ hc)
  rw [lines, String.toList_ofList, List.splitOn_eq_splitOnP, List.splitOnP_eq_singleton hl]
  by_cases hnil : l = [] <;> simp [hnil]

theorem lines_append_cons (h : '\n' ∉ l) (rest : List Char) :
    lines (String.ofList (l ++ '\n' :: rest)) =
      String.ofList (if l.getLast? = some '\r' then l.dropLast else l) ::
        lines (String.ofList rest) := by
  have hl : ∀ c ∈ l, (c == '\n') = false := fun c hc => by
    simpa using fun he : c = '\n' => h (he ▸ hc)
  have hsplit : (l ++ '\n' :: rest).splitOn '\n' = l :: rest.splitOn '\n' := by
    rw [List.splitOn_eq_splitOnP, List.splitOn_eq_splitOnP,
      List.splitOnP_append_cons_of_forall_mem hl _ (by decide)]
  have hne := List.splitOn_ne_nil '\n' rest
  simp only [lines, String.toList_ofList, hsplit, List.dropLast_cons_of_ne_nil hne,
    List.getLast?_cons_of_ne_nil hne, List.map_cons, List.cons_append]

theorem Lines.lines_eq {cs : List Char} {ls : List String} (h : Lines cs ls) :
    lines (String.ofList cs) = ls := by
  induction h with
  | nil => rfl
  | last hne hl => rw [lines_of_not_mem hl, if_neg hne]
  | feed hl hr _ ih => rw [lines_append_cons hl, if_neg hr, ih]
  | @returned l rest _ hl _ ih =>
    have hr : '\n' ∉ l ++ ['\r'] := by simp [hl]
    rw [List.append_cons, lines_append_cons hr, ih]
    simp

theorem exists_lines (cs : List Char) : ∃ ls, Lines cs ls := by
  induction hn : cs.length using Nat.strong_induction_on generalizing cs with
  | _ n ih =>
    subst hn
    by_cases h : '\n' ∈ cs
    · obtain ⟨l, rest, rfl, hl⟩ := List.eq_append_cons_of_mem h
      have hrest : rest.length < (l ++ '\n' :: rest).length := by
        simp only [List.length_append, List.length_cons]
        omega
      obtain ⟨ls, hls⟩ := ih rest.length hrest rest rfl
      by_cases hr : l.getLast? = some '\r'
      · obtain ⟨l, rfl⟩ := List.getLast?_eq_some_iff.mp hr
        rw [List.mem_append, not_or] at hl
        rw [← List.append_cons]
        exact ⟨_, .returned hl.1 hls⟩
      · exact ⟨_, .feed hl hr hls⟩
    · by_cases hnil : cs = []
      · exact ⟨[], hnil ▸ .nil⟩
      · exact ⟨_, .last hnil h⟩

theorem lines_eq_iff {text : String} {ls : List String} :
    lines text = ls ↔ Lines text.toList ls := by
  constructor
  · rintro rfl
    obtain ⟨ls, hls⟩ := exists_lines text.toList
    have heq := hls.lines_eq
    rw [String.ofList_toList] at heq
    exact heq ▸ hls
  · intro h
    rw [← h.lines_eq, String.ofList_toList]

end Preview

end Questionnaire

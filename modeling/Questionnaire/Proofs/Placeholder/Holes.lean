import Questionnaire.Proofs.Text.Search
import Questionnaire.Placeholder

/-! # Texts with holes

A text whose marks are all those of bound placeholders is cut where the marks are. A pass puts
the values into these holes, leaves the text between them as it is and misses nothing.
-/

namespace Questionnaire

open Text

def Marks.Free (m : Marks) (cs : List Char) : Prop := ∀ c ∈ cs, c ∉ m.opening ∧ c ∉ m.closing

instance (m : Marks) (cs : List Char) : Decidable (m.Free cs) := List.decidableBAll _ cs

/-- A text whose marks are those of bound placeholders, and the text with their values. -/
inductive Filling (m : Marks) (data : Bindings) : List Char → List Char → Prop where
  | text {cs : List Char} : m.Free cs → Filling m data cs cs
  | hole {before key a b : List Char} {value : String} : m.Free before →
      FirstAt m.closing key → '\n' ∉ key → data.get? (String.ofList key) = some value →
      Filling m data a b →
      Filling m data (before ++ (m.opening ++ (key ++ (m.closing ++ a))))
        (before ++ (value.toList ++ b))

section

variable {m : Marks}

theorem Marks.free_append {a b : List Char} : m.Free (a ++ b) ↔ m.Free a ∧ m.Free b :=
  List.forall_mem_append

theorem Marks.free_cons {c : Char} {cs : List Char} : m.Free (c :: cs) ↔ m.Free [c] ∧ m.Free cs :=
  Marks.free_append (a := [c])

theorem Marks.Free.not_infix {cs : List Char} (h : m.Free cs) (ho : m.opening ≠ []) :
    ¬ m.opening <:+: cs := by
  intro hi
  obtain ⟨c, hc⟩ := List.exists_mem_of_ne_nil _ ho
  exact (h c (hi.subset hc)).1 hc

theorem Marks.Free.firstAt {cs : List Char} (h : m.Free cs) (ho : m.opening ≠ []) :
    FirstAt m.opening cs := by
  intro p q he
  rw [List.append_assoc] at he
  rcases List.append_eq_append_iff.mp he with ⟨c, rfl, hc⟩ | ⟨c, rfl, hc⟩
  · have := congrArg List.length hc
    simp only [List.length_append] at this
    exact List.length_eq_zero_iff.mp (by omega)
  · -- A mark that begins in the text has a character of it.
    obtain ⟨x, xs, hm⟩ := List.exists_cons_of_ne_nil ho
    cases c with
    | nil => simpa using hc
    | cons y c =>
      rw [hm] at hc
      obtain rfl : x = y := (List.cons.inj hc).1
      exact absurd (hm ▸ List.mem_cons_self) (h x (by simp)).1

namespace Piece

theorem scan_of_unclosed {cs : List Char}
    (h : ∀ before behind, cutAt? m.opening cs = some (before, behind) →
      cutAt? m.closing behind = none) : scan m cs = [.text cs] := by
  rw [scan]
  split
  · rfl
  split
  · rfl
  · next before behind ho => rw [h before behind ho]

theorem scan_of_not_opened {cs : List Char} (ho : cutAt? m.opening cs = none) :
    scan m cs = [.text cs] :=
  scan_of_unclosed fun before behind h => absurd (ho.symm.trans h) (by simp)

theorem scan_of_not_closed {cs before behind : List Char}
    (ho : cutAt? m.opening cs = some (before, behind)) (hc : cutAt? m.closing behind = none) :
    scan m cs = [.text cs] := by
  refine scan_of_unclosed fun before' behind' h => ?_
  obtain ⟨rfl, rfl⟩ := Prod.mk.inj (Option.some.inj (ho.symm.trans h))
  exact hc

theorem scan_of_free {cs : List Char} (ho : m.opening ≠ []) (h : m.Free cs) :
    scan m cs = [.text cs] :=
  scan_of_not_opened (cutAt?_eq_none_iff.mpr (h.not_infix ho))

theorem scan_of_cutAt? {cs before behind key rest : List Char} (ho : m.opening ≠ [])
    (hc : m.closing ≠ []) (hopen : cutAt? m.opening cs = some (before, behind))
    (hclose : cutAt? m.closing behind = some (key, rest)) :
    scan m cs = if '\n' ∈ key then .text (before ++ m.opening) :: scan m behind
      else .text before :: .hole key :: scan m rest := by
  rw [scan, dif_neg (by simp [ho, hc])]
  split
  · next h =>
    rw [hopen] at h
    cases h
  · next h =>
    obtain ⟨rfl, rfl⟩ := Prod.mk.inj (Option.some.inj (hopen.symm.trans h))
    split
    · next h =>
      rw [hclose] at h
      cases h
    · next h =>
      obtain ⟨rfl, rfl⟩ := Prod.mk.inj (Option.some.inj (hclose.symm.trans h))
      rfl

theorem scan_hole {before key rest : List Char} (ho : m.opening ≠ []) (hc : m.closing ≠ [])
    (hb : FirstAt m.opening before) (hk : FirstAt m.closing key) (hl : '\n' ∉ key) :
    scan m (before ++ (m.opening ++ (key ++ (m.closing ++ rest)))) =
      .text before :: .hole key :: scan m rest := by
  have hopen := cutAt?_append hb (key ++ (m.closing ++ rest))
  have hclose := cutAt?_append hk rest
  rw [List.append_assoc] at hopen hclose
  rw [scan_of_cutAt? ho hc hopen hclose, if_neg hl]

end Piece

namespace Filling

variable {data : Bindings} {a b : List Char}

theorem append_free {before : List Char} (hb : m.Free before) (h : Filling m data a b) :
    Filling m data (before ++ a) (before ++ b) := by
  cases h with
  | text ha => exact .text (Marks.free_append.mpr ⟨hb, ha⟩)
  | hole ha hk hl hv h =>
    rw [← List.append_assoc before, ← List.append_assoc before]
    exact .hole (Marks.free_append.mpr ⟨hb, ha⟩) hk hl hv h

theorem append {a' b' : List Char} (h : Filling m data a b) (h' : Filling m data a' b') :
    Filling m data (a ++ a') (b ++ b') := by
  induction h with
  | text hcs => exact h'.append_free hcs
  | hole hb hk hl hv _ ih => simpa using Filling.hole hb hk hl hv ih

theorem fillReport_eq (ho : m.opening ≠ []) (hc : m.closing ≠ []) (h : Filling m data a b) :
    fillReport m data (String.ofList a) = ⟨String.ofList b, []⟩ := by
  have hpieces : (Piece.scan m a).flatMap (·.filled m data) = b ∧
      ((Piece.scan m a).filterMap Piece.key?).filter (fun k => !data.contains k) = [] := by
    induction h with
    | text hcs => simp [Piece.scan_of_free ho hcs, Piece.filled, Piece.key?]
    | @hole _ key _ _ _ hb hk hl hv _ ih =>
      obtain ⟨hfilled, hmissing⟩ := ih
      have hkey : (Piece.hole key).key? = some (String.ofList key) := rfl
      rw [Piece.scan_hole ho hc (hb.firstAt ho) hk hl]
      refine ⟨?_, ?_⟩
      · rw [List.flatMap_cons, List.flatMap_cons, hfilled]
        simp [Piece.filled, hv]
      · rw [List.filterMap_cons_none rfl, List.filterMap_cons_some hkey, List.filter_cons, hmissing]
        simp [Table.contains, hv]
  simp [fillReport, hpieces]

end Filling

end

end Questionnaire

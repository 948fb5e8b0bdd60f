import Mathlib.Data.List.Sort
import Questionnaire.Proofs.Placeholder.Holes

/-! # Passes one after another

A pass leaves a text in which a scan finds the placeholders that were not bound, and no
others: an opening mark that has opened nothing still has its line break in front of the
closing mark that is nearest to it now. So a second pass comes to what one pass over both
tables comes to.
-/

namespace Questionnaire

open Text

namespace Table

variable {α : Type}

theorem eq_of_get? {s t : Table α} (h : ∀ k, s.get? k = t.get? k) : s = t := by
  have : Std.Irrefl fun a b : String × α => a.1 < b.1 := ⟨fun a => String.lt_irrefl a.1⟩
  have : Std.Antisymm fun a b : String × α => a.1 < b.1 :=
    ⟨fun a b hab hba => absurd (String.lt_trans hab hba) (String.lt_irrefl a.1)⟩
  have hmem (e : String × α) : e ∈ s.entries ↔ e ∈ t.entries := by
    rw [← e.eta, mem_entries_iff, mem_entries_iff, h]
  exact Table.ext
    ((List.pairwise_map.mp s.sorted).eq_of_mem_iff (List.pairwise_map.mp t.sorted) hmem)

/-- The table with the entries of another one for the keys that it lacks. -/
def withDefaults (s t : Table α) : Table α := s.entries.foldl (fun t e => t.put e.1 e.2) t

theorem get?_withDefaults (s t : Table α) (k : String) :
    (s.withDefaults t).get? k = (s.get? k).or (t.get? k) := by
  have hs : s.entries.reverse.lookup k = s.get? k := by rw [← get?_ofList, ofList_entries]
  rw [get?, withDefaults, entries_foldl_put, lookup_foldl_putSorted, hs]
  rfl

theorem withDefaults_self (t : Table α) : t.withDefaults t = t :=
  eq_of_get? fun k => by rw [get?_withDefaults, Option.or_self]

end Table

/-- An opening mark in front of the text opens no placeholder. -/
def Marks.Stray (m : Marks) (behind : List Char) : Prop :=
  ∀ key rest, cutAt? m.closing behind = some (key, rest) → '\n' ∈ key

namespace Piece

variable {m : Marks}

/-- A piece after a pass: the value of a bound key is text. -/
def settled (data : Bindings) : Piece → Piece
  | text cs => text cs
  | hole key =>
    match data.get? (String.ofList key) with
    | some value => text value.toList
    | none => hole key

theorem filled_settled (m : Marks) (first second : Bindings) (p : Piece) :
    (p.settled first).filled m second = p.filled m (first.withDefaults second) := by
  cases p with
  | text cs => rfl
  | hole key =>
    cases h : first.get? (String.ofList key) <;>
      simp [settled, filled, Table.get?_withDefaults, h]

theorem key?_settled (data : Bindings) (p : Piece) :
    (p.settled data).key? = p.key?.filter fun k => !data.contains k := by
  cases p with
  | text cs => rfl
  | hole key =>
    cases h : data.get? (String.ofList key) <;>
      simp [settled, key?, Table.contains, Option.filter, h]

/-- Pieces between which no pass makes a difference. -/
structure Alike (m : Marks) (ps qs : List Piece) : Prop where
  filled : ∀ data, ps.flatMap (filled m data) = qs.flatMap (filled m data)
  keys : ps.filterMap key? = qs.filterMap key?

namespace Alike

variable {ps qs rs : List Piece}

theorem refl (ps : List Piece) : Alike m ps ps := ⟨fun _ => rfl, rfl⟩

theorem trans (h : Alike m ps qs) (h' : Alike m qs rs) : Alike m ps rs :=
  ⟨fun data => (h.filled data).trans (h'.filled data), h.keys.trans h'.keys⟩

theorem cons (p : Piece) (h : Alike m ps qs) : Alike m (p :: ps) (p :: qs) where
  filled data := by rw [List.flatMap_cons, List.flatMap_cons, h.filled]
  keys := by rw [List.filterMap_cons, List.filterMap_cons, h.keys]

theorem text_append (a b : List Char) (ps : List Piece) :
    Alike m (.text (a ++ b) :: ps) (.text a :: .text b :: ps) :=
  ⟨fun data => by simp [Piece.filled], rfl⟩

end Alike

theorem alike_scan_stray {before behind : List Char} (ho : m.opening ≠ []) (hc : m.closing ≠ [])
    (hb : FirstAt m.opening before) (hs : m.Stray behind) :
    Alike m (scan m (before ++ m.opening ++ behind))
      (.text (before ++ m.opening) :: scan m behind) := by
  have hopen := cutAt?_append hb behind
  cases hclose : cutAt? m.closing behind with
  | some p =>
    rw [scan_of_cutAt? ho hc hopen hclose, if_pos (hs p.1 p.2 hclose)]
    exact .refl _
  | none =>
    have hbehind : scan m behind = [.text behind] := by
      refine scan_of_unclosed fun a b ha => ?_
      rw [cutAt?_eq_none_iff] at hclose ⊢
      exact fun hi => hclose (hi.trans ⟨a ++ m.opening, [], by simp [eq_append_of_cutAt? ha]⟩)
    rw [scan_of_not_closed hopen hclose, hbehind]
    exact .text_append _ _ _

def pass (m : Marks) (data : Bindings) (cs : List Char) : List Char :=
  (scan m cs).flatMap (filled m data)

end Piece

def Marks.single (o c : Char) : Marks := ⟨[o], [c]⟩

section Single

variable {o c : Char} {data : Bindings}

theorem stray_single_iff {cs : List Char} : (Marks.single o c).Stray cs ↔
    ∀ key rest, cs = key ++ c :: rest → c ∉ key → '\n' ∈ key := by
  constructor
  · rintro h key rest rfl hk
    have hcut := cutAt?_append (firstAt_singleton_iff.mpr hk) rest
    rw [List.append_assoc] at hcut
    exact h key rest hcut
  · intro h key rest hcut
    refine h key rest ?_ (firstAt_singleton_iff.mp (firstAt_of_cutAt? hcut))
    simpa [Marks.single] using eq_append_of_cutAt? hcut

/-- What is in front decides, unless it has neither a closing mark nor a line break. -/
theorem stray_append_iff {a b : List Char} : (Marks.single o c).Stray (a ++ b) ↔
    (Marks.single o c).Stray a ∧ (c ∈ a ∨ '\n' ∈ a ∨ (Marks.single o c).Stray b) := by
  simp only [stray_single_iff]
  constructor
  · intro h
    refine ⟨fun key rest ha => h key (rest ++ b) (by simp [ha]), ?_⟩
    by_contra! hno
    obtain ⟨hca, hla, key, rest, rfl, hk, hl⟩ := hno
    have := h (a ++ key) rest (by simp) (by simp [hca, hk])
    exact (List.mem_append.mp this).elim hla hl
  · rintro ⟨ha, hab⟩ key rest he hk
    rcases List.append_eq_append_iff.mp he with ⟨d, rfl, hb⟩ | ⟨d, rfl, hb⟩
    · rw [List.mem_append, not_or] at hk
      rcases hab with hca | hla | hb'
      · exact absurd hca hk.1
      · exact List.mem_append_left d hla
      · exact List.mem_append_right a (hb' d rest hb hk.2)
    · cases d with
      | nil =>
        rw [List.append_nil] at hab ha
        rcases hab with hca | hla | hb'
        · exact absurd hca hk
        · exact hla
        · exact absurd (hb' [] rest (by simpa using hb.symm) (by simp)) (by simp)
      | cons x d =>
        obtain rfl : c = x := (List.cons.inj hb).1
        exact ha key d rfl hk

theorem stray_of_cutAt? {m : Marks} {behind key rest : List Char}
    (h : cutAt? m.closing behind = some (key, rest)) (hl : '\n' ∈ key) : m.Stray behind := by
  intro key' rest' h'
  obtain ⟨rfl, rfl⟩ := Prod.mk.inj (Option.some.inj (h.symm.trans h'))
  exact hl

theorem not_stray_hole {key : List Char} (ho : o ≠ '\n') (hk : c ∉ key) (hl : '\n' ∉ key)
    (rest : List Char) : ¬ (Marks.single o c).Stray (o :: (key ++ c :: rest)) := by
  rw [stray_single_iff]
  intro h
  by_cases hoc : o = c
  · have := h [] (key ++ c :: rest) (by rw [hoc]; rfl) List.not_mem_nil
    cases this
  · have := h (o :: key) rest rfl (by simp [Ne.symm hoc, hk])
    exact (List.mem_cons.mp this).elim (fun h => ho h.symm) hl

namespace Piece

theorem scan_append_of_not_mem {a : List Char} (h : o ∉ a) (cs : List Char) :
    ∃ t ps, scan (.single o c) cs = .text t :: ps ∧
      scan (.single o c) (a ++ cs) = .text (a ++ t) :: ps := by
  have ho : (Marks.single o c).opening ≠ [] := List.cons_ne_nil o []
  have hc : (Marks.single o c).closing ≠ [] := List.cons_ne_nil c []
  cases hopen : cutAt? [o] cs with
  | none =>
    have hopen' : cutAt? [o] (a ++ cs) = none := by
      rw [cutAt?_eq_none_iff, List.singleton_infix_iff] at hopen ⊢
      simp [h, hopen]
    exact ⟨cs, [], scan_of_not_opened hopen, scan_of_not_opened hopen'⟩
  | some p =>
    obtain ⟨before, behind⟩ := p
    have hbefore : o ∉ before := firstAt_singleton_iff.mp (firstAt_of_cutAt? hopen)
    have hopen' : cutAt? [o] (a ++ cs) = some (a ++ before, behind) := by
      have hfirst : FirstAt [o] (a ++ before) := firstAt_singleton_iff.mpr (by simp [h, hbefore])
      simpa [eq_append_of_cutAt? hopen] using cutAt?_append hfirst behind
    cases hclose : cutAt? [c] behind with
    | none => exact ⟨cs, [], scan_of_not_closed hopen hclose, scan_of_not_closed hopen' hclose⟩
    | some p =>
      obtain ⟨key, rest⟩ := p
      rw [scan_of_cutAt? ho hc hopen hclose, scan_of_cutAt? ho hc hopen' hclose]
      split
      · exact ⟨_, _, rfl, by simp⟩
      · exact ⟨_, _, rfl, rfl⟩

theorem stray_pass (ho : o ≠ '\n') (data : Bindings) {cs : List Char}
    (h : (Marks.single o c).Stray cs) :
    (Marks.single o c).Stray (pass (.single o c) data cs) := by
  rw [pass]
  fun_induction scan (.single o c) cs with
  | case1 | case2 | case3 => simpa [filled] using h
  | case4 cs hm before behind hb key rest hr hk ih =>
    rw [eq_append_of_cutAt? hb, stray_append_iff] at h
    exact stray_append_iff.mpr ⟨h.1, .inr (.inr (ih (stray_of_cutAt? hr hk)))⟩
  | case5 cs hm before behind hb key rest hr hk ih =>
    have hcs : cs = before ++ o :: (key ++ c :: rest) := by
      simpa [Marks.single, eq_append_of_cutAt? hr] using eq_append_of_cutAt? hb
    have hkey : c ∉ key := firstAt_singleton_iff.mp (firstAt_of_cutAt? hr)
    rw [hcs, stray_append_iff] at h
    refine stray_append_iff.mpr ⟨h.1, ?_⟩
    rcases h.2 with hc | hl | hs
    · exact .inl hc
    · exact .inr (.inl hl)
    · exact absurd hs (not_stray_hole ho hkey hk rest)

/-- A scan of a filled text finds the pieces that the pass has left. -/
theorem alike_scan_pass (ho : o ≠ '\n') (hv : ∀ k v, data.get? k = some v → o ∉ v.toList)
    (cs : List Char) : Alike (.single o c) (scan (.single o c) (pass (.single o c) data cs))
      ((scan (.single o c) cs).map (settled data)) := by
  have hopening : (Marks.single o c).opening ≠ [] := List.cons_ne_nil o []
  have hclosing : (Marks.single o c).closing ≠ [] := List.cons_ne_nil c []
  have hsame {cs : List Char} (h : scan (.single o c) cs = [.text cs]) :
      Alike (.single o c) (scan (.single o c) ([.text cs].flatMap (filled (.single o c) data)))
        [.text cs] := by
    simpa [filled, h] using Alike.refl [.text cs]
  rw [pass]
  fun_induction scan (.single o c) cs with
  | case1 cs hm => exact absurd hm (not_or.mpr ⟨hopening, hclosing⟩)
  | case2 cs hm hb => exact hsame (scan_of_not_opened hb)
  | case3 cs hm before behind hb hr => exact hsame (scan_of_not_closed hb hr)
  | case4 cs hm before behind hb key rest hr hk ih =>
    have hstray := stray_pass ho data (stray_of_cutAt? hr hk)
    exact (alike_scan_stray hopening hclosing (firstAt_of_cutAt? hb) hstray).trans (ih.cons _)
  | case5 cs hm before behind hb key rest hr hk ih =>
    cases hkey : data.get? (String.ofList key) with
    | none =>
      have hpass : (text before :: hole key :: scan (.single o c) rest).flatMap
          (filled (.single o c) data) = before ++ ((Marks.single o c).opening ++
            (key ++ ((Marks.single o c).closing ++ pass (.single o c) data rest))) := by
        simp [filled, source, hkey, pass]
      have hhole : (hole key).settled data = hole key := by simp [settled, hkey]
      rw [hpass, scan_hole hopening hclosing (firstAt_of_cutAt? hb) (firstAt_of_cutAt? hr) hk,
        List.map_cons, List.map_cons, hhole]
      exact (ih.cons _).cons _
    | some value =>
      have hpass : (text before :: hole key :: scan (.single o c) rest).flatMap
          (filled (.single o c) data) =
            before ++ value.toList ++ pass (.single o c) data rest := by
        simp [filled, hkey, pass]
      have hhole : (hole key).settled data = text value.toList := by simp [settled, hkey]
      have hfree : o ∉ before ++ value.toList := by
        have := firstAt_singleton_iff.mp (firstAt_of_cutAt? hb)
        simp [this, hv _ _ hkey]
      obtain ⟨t, ps, hrest, hscan⟩ :=
        scan_append_of_not_mem (c := c) hfree (pass (.single o c) data rest)
      have ih : Alike (.single o c) (text t :: ps) ((scan (.single o c) rest).map (settled data)) :=
        hrest ▸ ih
      rw [hpass, hscan, List.map_cons, List.map_cons, hhole]
      refine (Alike.text_append _ t ps).trans ?_
      exact (ih.cons _).trans (.text_append before _ _)

end Piece

end Single

theorem fillReport_fillReport {m : Marks} {first : Bindings} {markup : String}
    (h : Piece.Alike m (Piece.scan m (Piece.pass m first markup.toList))
      ((Piece.scan m markup.toList).map (Piece.settled first))) (second : Bindings) :
    fillReport m second (fillReport m first markup).markup =
      fillReport m (first.withDefaults second) markup := by
  have hmarkup : (fillReport m first markup).markup.toList = Piece.pass m first markup.toList :=
    String.toList_ofList
  generalize (fillReport m first markup).markup = text at hmarkup
  have hfilled := h.filled second
  simp only [List.flatMap_map, Piece.filled_settled] at hfilled
  have hkeys := h.keys
  simp only [List.filterMap_map, Function.comp_def, Piece.key?_settled,
    ← List.filter_filterMap] at hkeys
  have hmissing (k : String) : (!second.contains k && !first.contains k) =
      !(first.withDefaults second).contains k := by
    simp [Table.contains, Table.get?_withDefaults, Option.isSome_or, Bool.and_comm]
  simp only [fillReport, hmarkup, hfilled, hkeys, List.filter_filter, hmissing]

/-- Two passes come to one pass over both tables, in the text and in what they report, unless a
value of the first table has an opening mark. So a pass that is done again changes nothing. -/
theorem fill_in_stages {m : Marks} (hm : m = .field ∨ m = .term) {first : Bindings}
    (hv : ∀ k v, first.get? k = some v → ¬ m.opening <:+: v.toList) (second : Bindings)
    (markup : String) :
    fillReport m second (fillReport m first markup).markup =
        fillReport m (first.withDefaults second) markup ∧
      fill m second (fill m first markup).value = fill m (first.withDefaults second) markup ∧
      fill m first (fill m first markup).value = fill m first markup := by
  have hrescan : Piece.Alike m (Piece.scan m (Piece.pass m first markup.toList))
      ((Piece.scan m markup.toList).map (Piece.settled first)) := by
    rcases hm with rfl | rfl <;>
      exact Piece.alike_scan_pass (by decide)
        (fun k v hk hmem => hv k v hk ((List.singleton_infix_iff _ _).mpr hmem)) _
  have hfill (data : Bindings) :
      fill m data (fill m first markup).value = fill m (first.withDefaults data) markup :=
    congrArg (fun f : Filled => Logged.mk f.markup (f.missing.map .unboundPlaceholder))
      (fillReport_fillReport hrescan data)
  refine ⟨fillReport_fillReport hrescan second, hfill second, ?_⟩
  rw [hfill first, Table.withDefaults_self]

/-- The stray mark in front of the first placeholder goes with a closing mark further on once this
placeholder is filled. -/
theorem fill_in_stages_behind_stray :
    let first : Bindings := .ofList [("a", "x")]
    let second : Bindings := .ofList [("a", "y"), ("b", "z")]
    let markup := "\x7b\n\x7ba\x7d\x7d \x7bb\x7d"
    (Marks.field = .field ∨ Marks.field = .term) ∧
      (∀ k v, first.get? k = some v → ¬ Marks.field.opening <:+: v.toList) ∧
      (fillReport .field first markup).markup = "\x7b\nx\x7d \x7bb\x7d" ∧
      fillReport .field second (fillReport .field first markup).markup =
        fillReport .field (first.withDefaults second) markup ∧
      fillReport .field (first.withDefaults second) markup = ⟨"\x7b\nx\x7d z", []⟩ := by
  intro first second markup
  have hv : ∀ k v, first.get? k = some v → ¬ Marks.field.opening <:+: v.toList := by
    intro k v hk
    obtain ⟨-, rfl⟩ : k = "a" ∧ v = "x" := by
      simpa using Table.mem_of_mem_ofList (Table.mem_entries_iff.mpr hk)
    decide
  exact ⟨.inl rfl, hv, by decide +kernel, (fill_in_stages (.inl rfl) hv second markup).1,
    by decide +kernel⟩

end Questionnaire

import Mathlib.Data.List.Infix
import Questionnaire.Text.Search

/-! # First occurrences

A run of characters ends at the first one that is not of it, and a text is cut at
the first occurrence of a mark. A mark with a character that it has once only
cannot overlap itself, so its first occurrence behind a text without it is the one
that has been put there.
-/

namespace Questionnaire.Text

variable {α : Type}

section Runs

variable {p : α → Bool} {a b : List α}

theorem takeWhile_append_of_stop (ha : ∀ x ∈ a, p x = true) (hb : ∀ x ∈ b.head?, p x = false) :
    (a ++ b).takeWhile p = a := by
  rw [List.takeWhile_append_of_pos ha]
  cases b with
  | nil => simp
  | cons x b => simp [hb x rfl]

theorem dropWhile_append_of_stop (ha : ∀ x ∈ a, p x = true) (hb : ∀ x ∈ b.head?, p x = false) :
    (a ++ b).dropWhile p = b := by
  rw [List.dropWhile_append_of_pos ha]
  cases b with
  | nil => simp
  | cons x b => simp [hb x rfl]

end Runs

/-- The mark behind a text is its first occurrence. -/
def FirstAt (m a : List α) : Prop := ∀ p q, a ++ m = p ++ m ++ q → q = []

theorem FirstAt.of_cons {m a : List α} {x : α} (h : FirstAt m (x :: a)) : FirstAt m a :=
  fun p q he => h (x :: p) q (by simp [he])

theorem firstAt_nil (m : List α) : FirstAt m [] := by
  intro p q he
  have := congrArg List.length he
  simp only [List.length_append, List.nil_append] at this
  exact List.length_eq_zero_iff.mp (by omega)

theorem firstAt_concat_iff {ms a : List α} {x : α} (hx : x ∉ ms) :
    FirstAt (ms ++ [x]) a ↔ ¬ ms ++ [x] <:+: a := by
  constructor
  · rintro h ⟨p, q, rfl⟩
    have := h p (q ++ (ms ++ [x])) (by simp)
    simp at this
  · intro h p q he
    by_contra hq
    obtain ⟨q, y, rfl⟩ := (List.eq_nil_or_concat q).resolve_left hq
    have he : a ++ ms = (p ++ (ms ++ [x])) ++ q := by
      rw [List.concat_eq_append, ← List.append_assoc, ← List.append_assoc] at he
      exact (List.append_inj' he rfl).1
    rcases List.append_eq_append_iff.mp he with ⟨b, hb, rfl⟩ | ⟨b, rfl, _⟩
    · rcases List.eq_nil_or_concat b with rfl | ⟨b, z, rfl⟩
      · exact h ⟨p, [], by simpa using hb⟩
      · -- The last character of the mark stands among its others.
        have : x = z := by
          rw [List.concat_eq_append, ← List.append_assoc p, ← List.append_assoc a] at hb
          simpa using (List.append_inj' hb rfl).2
        simp [this] at hx
    · exact h ⟨p, b, rfl⟩

theorem firstAt_singleton_iff {a : List α} {x : α} : FirstAt [x] a ↔ x ∉ a := by
  rw [← List.nil_append [x], firstAt_concat_iff List.not_mem_nil]
  simp [List.singleton_infix_iff]

section Marks

variable [DecidableEq α]

theorem dropMark?_eq_none_iff {m cs : List α} : dropMark? m cs = none ↔ ¬ m <+: cs := by
  rw [Option.eq_none_iff_forall_ne_some]
  constructor
  · rintro h ⟨r, rfl⟩
    exact h r (dropMark?_append m r)
  · intro h r hr
    exact h ⟨r, (dropMark?_eq_some_iff.mp hr).symm⟩

theorem cutAt?_of_dropMark? {m cs r : List α} (h : dropMark? m cs = some r) :
    cutAt? m cs = some ([], r) := by
  cases cs with
  | nil => simp [cutAt?, h]
  | cons c cs => simp [cutAt?, h]

theorem cutAt?_append {m a : List α} (h : FirstAt m a) (b : List α) :
    cutAt? m (a ++ m ++ b) = some (a, b) := by
  induction a with
  | nil => exact cutAt?_of_dropMark? (dropMark?_append m b)
  | cons x a ih =>
    have hd : dropMark? m (x :: (a ++ m ++ b)) = none := by
      rw [dropMark?_eq_none_iff]
      rintro ⟨r, hr⟩
      have hp : m <+: x :: a ++ m :=
        List.prefix_of_prefix_length_le ⟨r, hr⟩ ⟨b, rfl⟩ (by simp; omega)
      obtain ⟨q, hq⟩ := hp
      obtain rfl := h [] q hq.symm
      have := congrArg List.length hq
      simp only [List.append_nil, List.length_cons, List.length_append] at this
      omega
    simp only [List.cons_append, cutAt?, hd, ih h.of_cons, Option.map_some]

theorem firstAt_of_cutAt? {m cs a b : List α} (h : cutAt? m cs = some (a, b)) : FirstAt m a := by
  induction cs generalizing a with
  | nil =>
    simp only [cutAt?, Option.map_eq_some_iff, Prod.mk.injEq] at h
    obtain ⟨_, _, rfl, _⟩ := h
    exact firstAt_nil m
  | cons c cs ih =>
    rw [cutAt?] at h
    split at h
    · simp only [Option.some.injEq, Prod.mk.injEq] at h
      exact h.1 ▸ firstAt_nil m
    · next hd =>
      simp only [Option.map_eq_some_iff, Prod.mk.injEq] at h
      obtain ⟨⟨a', b'⟩, h, rfl, rfl⟩ := h
      intro p q he
      cases p with
      | nil =>
        refine absurd ⟨q ++ b', ?_⟩ (dropMark?_eq_none_iff.mp hd)
        rw [eq_append_of_cutAt? h, ← List.append_assoc, ← List.cons_append, ← List.cons_append, he]
        simp
      | cons d p => exact ih h p q (List.cons.inj he).2

theorem exists_of_cutAt? {m cs a b a' b' : List α} (h : cutAt? m cs = some (a, b))
    (he : cs = a' ++ m ++ b') : ∃ c, a' = a ++ c ∧ m ++ b = c ++ (m ++ b') := by
  have hcs := eq_append_of_cutAt? h
  rw [he, List.append_assoc, List.append_assoc] at hcs
  rcases List.append_eq_append_iff.mp hcs with ⟨c, rfl, hc⟩ | ⟨c, rfl, hc⟩
  · -- The mark behind `a'` ends in front of the one behind `a' ++ c`.
    obtain ⟨q, hq⟩ : m <+: c ++ m :=
      List.prefix_of_prefix_length_le ⟨b', hc⟩ ⟨b, by simp⟩ (by simp)
    have hnil := firstAt_of_cutAt? h a' q (by rw [List.append_assoc, ← hq, List.append_assoc])
    have := congrArg List.length hq
    simp only [hnil, List.length_append, List.length_nil] at this
    obtain rfl := List.length_eq_zero_iff.mp (by omega : c.length = 0)
    exact ⟨[], by simp, by simpa using hc.symm⟩
  · exact ⟨c, rfl, hc⟩

theorem cutAt?_eq_none_iff {m cs : List α} : cutAt? m cs = none ↔ ¬ m <:+: cs := by
  induction cs with
  | nil => simp [cutAt?, dropMark?_eq_none_iff]
  | cons c cs ih =>
    rw [cutAt?, List.infix_cons_iff]
    split
    · next r hr =>
      have : m <+: c :: cs := ⟨r, (dropMark?_eq_some_iff.mp hr).symm⟩
      simp [this]
    · next hd => simp [ih, dropMark?_eq_none_iff.mp hd]

end Marks

/-- A mark whose first character it has only there does not begin in a text without it in
front of a text that begins with this character. -/
theorem not_prefix_append {x : α} {m a b : List α} (hx : x ∉ m) (ha : a ≠ [])
    (h : ¬ x :: m <:+: a) : ¬ x :: m <+: a ++ x :: b := by
  rintro ⟨q, hq⟩
  rcases List.append_eq_append_iff.mp hq with ⟨a', rfl, _⟩ | ⟨c, hc, hb⟩
  · exact h ⟨[], a', by simp⟩
  · cases c with
    | nil => exact h ⟨[], [], by simpa using hc⟩
    | cons y c =>
      obtain rfl : x = y := (List.cons.inj hb).1
      cases a with
      | nil => exact ha rfl
      | cons z a => exact hx ((List.cons.inj hc).2 ▸ by simp)

theorem prefix_of_prefix_append {x : α} {m a b : List α} (hx : x ∉ m) (h : m <+: a ++ x :: b) :
    m <+: a := by
  obtain ⟨q, hq⟩ := h
  rcases List.append_eq_append_iff.mp hq with ⟨c, rfl, _⟩ | ⟨c, rfl, hc⟩
  · exact List.prefix_append m c
  · cases c with
    | nil => simp
    | cons y c => exact absurd (by simp [(List.cons.inj hc).1]) hx

theorem cutBefore?_append {test : List α → Bool} {a b : List α}
    (ha : ∀ p q, a = p ++ q → q ≠ [] → test (q ++ b) = false) (hb : test b = true) :
    cutBefore? test (a ++ b) = some (a, b) := by
  induction a with
  | nil => cases b <;> simp_all [cutBefore?]
  | cons x a ih =>
    have hx := ha [] (x :: a) rfl (by simp)
    rw [List.cons_append] at hx ⊢
    rw [cutBefore?, hx, ih fun p q e hq => ha (x :: p) q (by rw [e]; rfl) hq]
    rfl

theorem exists_cutBefore? {test : List α → Bool} {z : List α} (hz : test z = true) (x : List α) :
    ∃ a b, cutBefore? test (x ++ z) = some (a, b) ∧ a.length ≤ x.length := by
  induction x with
  | nil => cases z <;> exact ⟨[], _, if_pos hz, Nat.le_refl 0⟩
  | cons c x ih =>
    rw [List.cons_append, cutBefore?]
    split
    · exact ⟨[], _, rfl, Nat.zero_le _⟩
    · obtain ⟨a, b, hcut, hle⟩ := ih
      exact ⟨c :: a, b, by rw [hcut]; rfl, Nat.succ_le_succ hle⟩

end Questionnaire.Text

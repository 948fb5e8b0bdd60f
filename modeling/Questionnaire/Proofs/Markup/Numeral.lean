import Questionnaire.Markup.Entity
import Mathlib.Data.List.Induction

/-! # Numbers in digits

The number of a reference is written in decimal or hexadecimal digits. It is read as the number
that the digits write if it has 32 bits, and a plus sign in front of it is passed over.
-/

namespace Questionnaire.Markup

/-- A digit of a radix, its letters in either case, and what it counts. -/
def Digit (radix : Nat) (c : Char) (v : Nat) : Prop :=
  v < radix ∧ ("0123456789abcdef".toList[v]? = some c ∨ "0123456789ABCDEF".toList[v]? = some c)

instance (radix : Nat) (c : Char) (v : Nat) : Decidable (Digit radix c v) :=
  inferInstanceAs (Decidable (_ ∧ _))

inductive Numeral (radix : Nat) : List Char → Nat → Prop where
  | single {c : Char} {v : Nat} : Digit radix c v → Numeral radix [c] v
  | concat {cs : List Char} {n : Nat} {c : Char} {v : Nat} : Numeral radix cs n →
      Digit radix c v → Numeral radix (cs ++ [c]) (radix * n + v)

variable {radix n v : Nat} {c : Char} {cs : List Char}

theorem toNat_lt_of_digitIn? (h : digitIn? radix c = some v) : c.toNat < 128 := by
  by_contra hc
  have hcode (d : Char) (hd : d.toNat < 128) : ¬ c ≤ d := by
    rw [Char.le_def, UInt32.le_iff_toNat_le]
    change ¬ c.toNat ≤ d.toNat
    omega
  have h9 := hcode '9' (by decide)
  have hz := hcode 'z' (by decide)
  have hZ := hcode 'Z' (by decide)
  simp [digitIn?, h9, hz, hZ] at h

theorem Digit.toNat_lt (h : Digit radix c v) : c.toNat < 128 := by
  have hascii : ∀ d ∈ "0123456789abcdef".toList ++ "0123456789ABCDEF".toList, d.toNat < 128 := by
    simp
  obtain ⟨-, h | h⟩ := h
  · exact hascii c (List.mem_append_left _ (List.mem_of_getElem? h))
  · exact hascii c (List.mem_append_right _ (List.mem_of_getElem? h))

theorem digitIn?_iff (hr : radix = 10 ∨ radix = 16) :
    digitIn? radix c = some v ↔ Digit radix c v := by
  have hascii : ∀ n < 128, ∀ v < 16, ∀ r ∈ [10, 16],
      (digitIn? r (Char.ofNat n) = some v ↔ Digit r (Char.ofNat n) v) := by decide +kernel
  have hiff (hc : c.toNat < 128) (hv : v < radix) :
      digitIn? radix c = some v ↔ Digit radix c v := by
    have := hascii c.toNat hc v (by omega) radix (by simpa using hr)
    rwa [Char.ofNat_toNat] at this
  constructor
  · intro h
    refine (hiff (toNat_lt_of_digitIn? h) ?_).mp h
    simp only [digitIn?, Option.ite_none_right_eq_some, Option.some.injEq] at h
    omega
  · intro h
    exact (hiff h.toNat_lt h.1).mpr h

theorem numeral_iff (hr : radix = 10 ∨ radix = 16) :
    Numeral radix cs n ↔ cs ≠ [] ∧ ∃ vs, cs.mapM (digitIn? radix) = some vs ∧
      vs.foldl (fun n d => radix * n + d) 0 = n := by
  constructor
  · intro h
    induction h with
    | @single c v hd =>
      exact ⟨List.cons_ne_nil _ _, [v], by simp [(digitIn?_iff hr).mpr hd], by simp⟩
    | @concat cs n c v _ hd ih =>
      obtain ⟨-, vs, hvs, rfl⟩ := ih
      refine ⟨by simp, vs ++ [v], ?_, by simp⟩
      simp [List.mapM_append, hvs, (digitIn?_iff hr).mpr hd]
  · rintro ⟨hne, vs, hvs, rfl⟩
    induction cs using List.reverseRecOn generalizing vs with
    | nil => exact absurd rfl hne
    | append_singleton cs c ih =>
      simp only [List.mapM_append, List.mapM_cons, List.mapM_nil, Option.bind_eq_bind,
        Option.bind_eq_some_iff, Option.pure_def, Option.some.injEq] at hvs
      obtain ⟨us, hus, ws, ⟨v, hv, _, rfl, rfl⟩, rfl⟩ := hvs
      have hd := (digitIn?_iff hr).mp hv
      by_cases hcs : cs = []
      · subst hcs
        obtain rfl : us = [] := by simpa [eq_comm] using hus
        simpa using Numeral.single hd
      · simpa using Numeral.concat (ih hcs us hus) hd

theorem Numeral.ne_nil (h : Numeral radix cs n) : cs ≠ [] := by
  cases h <;> simp

theorem Numeral.exists_digit (h : Numeral radix cs n) : ∀ c ∈ cs, ∃ v, Digit radix c v := by
  induction h with
  | @single c v hd => simpa using ⟨v, hd⟩
  | @concat cs n c v _ hd ih =>
    intro d hm
    rcases List.mem_append.mp hm with hm | hm
    · exact ih d hm
    · exact List.mem_singleton.mp hm ▸ ⟨v, hd⟩

theorem Numeral.not_mem (h : Numeral radix cs n) {c : Char}
    (hc : c ∉ "0123456789abcdef".toList ++ "0123456789ABCDEF".toList) : c ∉ cs := by
  intro hm
  obtain ⟨v, -, hv | hv⟩ := h.exists_digit c hm
  · exact hc (List.mem_append_left _ (List.mem_of_getElem? hv))
  · exact hc (List.mem_append_right _ (List.mem_of_getElem? hv))

/-- The digits of a number, without a plus sign in front of them. -/
def unsigned : List Char → List Char
  | '+' :: ds => ds
  | cs => cs

theorem numeral_unsigned_iff : Numeral radix (unsigned cs) n ↔
    Numeral radix cs n ∨ ∃ ds, cs = '+' :: ds ∧ Numeral radix ds n := by
  rw [unsigned.eq_def]
  split
  · next ds =>
    have hplus : ¬ Numeral radix ('+' :: ds) n := fun h =>
      h.not_mem (by decide) List.mem_cons_self
    simp [hplus]
  · next hplus => exact (or_iff_left fun ⟨ds, hcs, _⟩ => hplus ds hcs).symm

/-- A number of 32 bits is read, and a plus sign may stand in front of it. -/
theorem numeral?_iff (hr : radix = 10 ∨ radix = 16) :
    numeral? radix cs = some n ↔ n < UInt32.size ∧ Numeral radix (unsigned cs) n := by
  have hread : numeral? radix cs = if (unsigned cs).isEmpty then none else
      ((unsigned cs).mapM (digitIn? radix)).bind fun vs =>
        let n := vs.foldl (fun n d => radix * n + d) 0
        if n < UInt32.size then some n else none := by
    unfold numeral?
    extract_lets digits
    have hdigits : digits = unsigned cs := rfl
    rw [hdigits]
    cases (unsigned cs).mapM (digitIn? radix) <;> rfl
  rw [hread, numeral_iff hr]
  cases unsigned cs with
  | nil => simp
  | cons d ds =>
    cases (d :: ds).mapM (digitIn? radix) with
    | none => simp
    | some vs =>
      simp only [List.isEmpty_cons, Bool.false_eq_true, if_false, Option.bind_some,
        Option.ite_none_right_eq_some, Option.some.injEq]
      constructor
      · rintro ⟨hlt, rfl⟩
        exact ⟨hlt, List.cons_ne_nil d ds, vs, rfl, rfl⟩
      · rintro ⟨hlt, -, _, rfl, rfl⟩
        exact ⟨hlt, rfl⟩

end Questionnaire.Markup

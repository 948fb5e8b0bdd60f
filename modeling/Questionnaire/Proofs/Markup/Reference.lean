import Questionnaire.Proofs.Markup.Entity
import Questionnaire.Proofs.Markup.Numeral

/-! # The references of a text

A well formed reference names one of five characters or gives the number of a character in digits.
Reading a text puts the character in its place and leaves all else as it is. Beside the well formed
references only those are read that have a plus sign in front of their digits.
-/

namespace Questionnaire.Markup

open Text

/-- What stands between the ampersand and the semicolon of a well formed reference, and the
character that it stands for. -/
inductive Reference : List Char → Char → Prop where
  | amp : Reference "amp".toList '&'
  | lt : Reference "lt".toList '<'
  | gt : Reference "gt".toList '>'
  | quot : Reference "quot".toList '"'
  | apos : Reference "apos".toList '\''
  | decimal {ds : List Char} {c : Char} : Numeral 10 ds c.toNat → Reference ('#' :: ds) c
  | hexadecimal {x : Char} {ds : List Char} {c : Char} : x = 'x' ∨ x = 'X' →
      Numeral 16 ds c.toNat → Reference ('#' :: x :: ds) c

/-- A reference by number with a plus sign in front of its digits. -/
inductive Signed : List Char → Char → Prop where
  | decimal {ds : List Char} {c : Char} : Numeral 10 ds c.toNat → Signed ('#' :: '+' :: ds) c
  | hexadecimal {x : Char} {ds : List Char} {c : Char} : x = 'x' ∨ x = 'X' →
      Numeral 16 ds c.toNat → Signed ('#' :: x :: '+' :: ds) c

def Admitted (name : List Char) (c : Char) : Prop := Reference name c ∨ Signed name c

theorem scalar?_eq_some_iff {n : Nat} {c : Char} : scalar? n = some c ↔ c.toNat = n := by
  simp only [scalar?, Option.ite_none_right_eq_some, Option.some.injEq]
  constructor
  · rintro ⟨hn, rfl⟩
    rw [Char.ofNat, dif_pos hn]
    rfl
  · rintro rfl
    exact ⟨c.valid, Char.ofNat_toNat c⟩

theorem referenceNumber?_iff {cs : List Char} {n : Nat} : referenceNumber? cs = some n ↔
    numeral? 10 cs = some n ∨
      ∃ x ds, (x = 'x' ∨ x = 'X') ∧ cs = x :: ds ∧ numeral? 16 ds = some n := by
  have hletter (x : Char) (ds : List Char) (hx : x = 'x' ∨ x = 'X') :
      numeral? 10 (x :: ds) = none := by
    have hu : unsigned (x :: ds) = x :: ds := by rcases hx with rfl | rfl <;> rfl
    rw [Option.eq_none_iff_forall_ne_some]
    intro n h
    have hmem := ((numeral?_iff (.inl rfl)).mp h).2
    rw [hu] at hmem
    exact hmem.not_mem (by rcases hx with rfl | rfl <;> decide) List.mem_cons_self
  rw [referenceNumber?.eq_def]
  split
  · next ds => simp [hletter]
  · next ds => simp [hletter]
  · next hx hX =>
    refine (or_iff_left ?_).symm
    rintro ⟨x, ds, rfl | rfl, rfl, -⟩
    · exact hx ds rfl
    · exact hX ds rfl

theorem reference?_number (cs : List Char) :
    reference? ('#' :: cs) = (referenceNumber? cs).bind scalar? := by
  simp [reference?]

theorem reference?_iff {name : List Char} {c : Char} :
    reference? name = some c ↔ Admitted name c := by
  have hsize : c.toNat < UInt32.size := c.val.toNat_lt
  have hnumber (cs : List Char) : reference? ('#' :: cs) = some c ↔
      Numeral 10 (unsigned cs) c.toNat ∨
        ∃ x ds, (x = 'x' ∨ x = 'X') ∧ cs = x :: ds ∧ Numeral 16 (unsigned ds) c.toNat := by
    simp [reference?_number, Option.bind_eq_some_iff, scalar?_eq_some_iff, referenceNumber?_iff,
      numeral?_iff, hsize]
  constructor
  · intro h
    cases name with
    | nil => simp [reference?] at h
    | cons d cs =>
      by_cases hd : d = '#'
      · subst hd
        rcases (hnumber cs).mp h with hn | ⟨x, ds, hx, rfl, hn⟩
        · rcases numeral_unsigned_iff.mp hn with hn | ⟨ds, rfl, hn⟩
          · exact .inl (.decimal hn)
          · exact .inr (.decimal hn)
        · rcases numeral_unsigned_iff.mp hn with hn | ⟨es, rfl, hn⟩
          · exact .inl (.hexadecimal hx hn)
          · exact .inr (.hexadecimal hx hn)
      · -- A name without a number sign is one of the five.
        rw [reference?.eq_def] at h
        split at h
        · next hname => exact .inl (hname ▸ Option.some.inj h ▸ .amp)
        split at h
        · next hname => exact .inl (hname ▸ Option.some.inj h ▸ .lt)
        split at h
        · next hname => exact .inl (hname ▸ Option.some.inj h ▸ .gt)
        split at h
        · next hname => exact .inl (hname ▸ Option.some.inj h ▸ .quot)
        split at h
        · next hname => exact .inl (hname ▸ Option.some.inj h ▸ .apos)
        split at h
        · next he => exact absurd (List.cons.inj he).1 hd
        · cases h
  · rintro ((_ | _ | _ | _ | _ | hn | ⟨hx, hn⟩) | (hn | ⟨hx, hn⟩))
    · rfl
    · rfl
    · rfl
    · rfl
    · rfl
    · exact (hnumber _).mpr (.inl (numeral_unsigned_iff.mpr (.inl hn)))
    · exact (hnumber _).mpr (.inr ⟨_, _, hx, rfl, numeral_unsigned_iff.mpr (.inl hn)⟩)
    · exact (hnumber _).mpr (.inl hn)
    · exact (hnumber _).mpr (.inr ⟨_, _, hx, rfl, hn⟩)

theorem Admitted.plain {name : List Char} {c : Char} (h : Admitted name c) :
    ';' ∉ name ∧ '&' ∉ name := by
  rcases h with (_ | _ | _ | _ | _ | hn | ⟨hx, hn⟩) | (hn | ⟨hx, hn⟩)
  · decide
  · decide
  · decide
  · decide
  · decide
  · simp [hn.not_mem]
  · rcases hx with rfl | rfl <;> simp [hn.not_mem]
  · simp [hn.not_mem]
  · rcases hx with rfl | rfl <;> simp [hn.not_mem]

theorem Admitted.unique {name : List Char} {c d : Char} (h : Admitted name c)
    (h' : Admitted name d) : c = d :=
  Option.some.inj ((reference?_iff.mpr h).symm.trans (reference?_iff.mpr h'))

theorem Signed.not_reference {name : List Char} {c d : Char} (h : Signed name c) :
    ¬ Reference name d := by
  have hplus : '+' ∈ name := by cases h <;> simp
  rintro (_ | _ | _ | _ | _ | hn | ⟨hx, hn⟩)
  · exact absurd hplus (by decide)
  · exact absurd hplus (by decide)
  · exact absurd hplus (by decide)
  · exact absurd hplus (by decide)
  · exact absurd hplus (by decide)
  · exact absurd hplus (by simp [hn.not_mem])
  · exact absurd hplus (by rcases hx with rfl | rfl <;> simp [hn.not_mem])

def Begins (grammar : List Char → Char → Prop) (cs : List Char) : Prop :=
  ∃ name c rest, grammar name c ∧ cs = '&' :: (name ++ ';' :: rest)

/-- A text and what is read of it from left to right: a reference of the grammar is read as its
character, and a character where none begins stays. What is read is not read again. -/
inductive Decoded (grammar : List Char → Char → Prop) : List Char → List Char → Prop where
  | nil : Decoded grammar [] []
  | reference {name : List Char} {c : Char} {cs ds : List Char} : grammar name c →
      Decoded grammar cs ds → Decoded grammar ('&' :: (name ++ ';' :: cs)) (c :: ds)
  | keep {c : Char} {cs ds : List Char} : ¬ Begins grammar (c :: cs) → Decoded grammar cs ds →
      Decoded grammar (c :: cs) (c :: ds)

theorem cutReference?_iff {cs rest : List Char} {c : Char} :
    cutReference? cs = some (c, rest) ↔ ∃ name, Admitted name c ∧ cs = name ++ ';' :: rest := by
  rw [cutReference?]
  constructor
  · intro h
    split at h
    · cases h
    · next name rest' hcut =>
      simp only [Option.map_eq_some_iff, Prod.mk.injEq] at h
      obtain ⟨d, hname, rfl, rfl⟩ := h
      exact ⟨name, reference?_iff.mp hname, by simpa using eq_append_of_cutAt? hcut⟩
  · rintro ⟨name, hname, rfl⟩
    have hcut : cutAt? [';'] (name ++ ';' :: rest) = some (name, rest) := by
      simpa using cutAt?_append (firstAt_singleton_iff.mpr hname.plain.1) rest
    simp [hcut, reference?_iff.mpr hname]

theorem begins_admitted_iff {c : Char} {cs : List Char} :
    Begins Admitted (c :: cs) ↔ c = '&' ∧ (cutReference? cs).isSome := by
  simp only [Begins, Option.isSome_iff_exists, Prod.exists, cutReference?_iff, List.cons.injEq]
  constructor
  · rintro ⟨name, d, rest, hname, rfl, rfl⟩
    exact ⟨rfl, d, rest, name, hname, rfl⟩
  · rintro ⟨rfl, d, rest, name, hname, rfl⟩
    exact ⟨name, d, rest, hname, rfl, rfl⟩

theorem decoded_decode (cs : List Char) : Decoded Admitted cs (decode cs) := by
  fun_induction decode cs with
  | case1 => exact .nil
  | case2 cs d rest h ih =>
    obtain ⟨name, hname, rfl⟩ := cutReference?_iff.mp h
    exact .reference hname ih
  | case3 cs h ih => exact .keep (by simp [begins_admitted_iff, h]) ih
  | case4 c cs hc ih => exact .keep (by simp [begins_admitted_iff, hc]) ih

theorem Decoded.of_plain {grammar : List Char → Char → Prop} {cs : List Char} (h : '&' ∉ cs) :
    Decoded grammar cs cs := by
  induction cs with
  | nil => exact .nil
  | cons c cs ih =>
    refine .keep ?_ (ih fun hm => h (List.mem_cons_of_mem c hm))
    rintro ⟨name, d, rest, -, he⟩
    exact h ((List.cons.inj he).1 ▸ List.mem_cons_self)

section Reading

variable {grammar : List Char → Char → Prop} {name cs ds es : List Char} {c : Char}

theorem Decoded.cases_cons (h : Decoded grammar (c :: cs) ds) :
    (∃ name d rest es, grammar name d ∧ c :: cs = '&' :: (name ++ ';' :: rest) ∧ ds = d :: es ∧
      Decoded grammar rest es) ∨
    ¬ Begins grammar (c :: cs) ∧ ∃ es, ds = c :: es ∧ Decoded grammar cs es := by
  generalize hcs : c :: cs = as at h
  cases h with
  | nil => cases hcs
  | reference hname h => exact .inl ⟨_, _, _, _, hname, rfl, rfl, h⟩
  | keep hb h =>
    obtain ⟨rfl, rfl⟩ := List.cons.inj hcs
    exact .inr ⟨hb, _, rfl, h⟩

theorem Decoded.of_append {a : List Char} (ha : '&' ∉ a) (h : Decoded grammar (a ++ cs) ds) :
    ∃ es, ds = a ++ es ∧ Decoded grammar cs es := by
  induction a generalizing ds with
  | nil => exact ⟨ds, rfl, h⟩
  | cons x a ih =>
    rcases h.cases_cons with ⟨name, d, rest, es, -, he, -, -⟩ | ⟨-, es, rfl, htail⟩
    · exact absurd List.mem_cons_self ((List.cons.inj he).1 ▸ ha)
    · obtain ⟨fs, rfl, hfs⟩ := ih (fun hm => ha (List.mem_cons_of_mem x hm)) htail
      exact ⟨fs, rfl, hfs⟩

variable (hg : ∀ name c, grammar name c → Admitted name c)
include hg

theorem Decoded.of_reference (hname : grammar name c)
    (h : Decoded grammar ('&' :: (name ++ ';' :: cs)) ds) :
    ∃ es, ds = c :: es ∧ Decoded grammar cs es := by
  rcases h.cases_cons with ⟨name', d, rest, es, hname', he, rfl, htail⟩ | ⟨hb, -⟩
  · have hcut : cutReference? (name ++ ';' :: cs) = some (c, cs) :=
      cutReference?_iff.mpr ⟨name, hg _ _ hname, rfl⟩
    rw [(List.cons.inj he).2, cutReference?_iff.mpr ⟨name', hg _ _ hname', rfl⟩] at hcut
    obtain ⟨rfl, rfl⟩ := Prod.mk.inj (Option.some.inj hcut)
    exact ⟨es, rfl, htail⟩
  · exact absurd ⟨name, c, cs, hname, rfl⟩ hb

theorem Decoded.unique (h : Decoded grammar cs ds) (h' : Decoded grammar cs es) : ds = es := by
  induction h generalizing es with
  | nil => cases h'; rfl
  | reference hname _ ih =>
    obtain ⟨fs, rfl, htail⟩ := h'.of_reference hg hname
    rw [ih htail]
  | keep hb _ ih =>
    rcases h'.cases_cons with ⟨name, d, rest, fs, hname, he, -, -⟩ | ⟨-, fs, rfl, htail⟩
    · exact absurd ⟨name, d, rest, hname, he⟩ hb
    · rw [ih htail]

end Reading

def HasSigned (cs : List Char) : Prop :=
  ∃ name c, Signed name c ∧ '&' :: (name ++ [';']) <:+: cs

theorem HasSigned.of_append {a cs : List Char} (ha : '&' ∉ a) (h : HasSigned (a ++ cs)) :
    HasSigned cs := by
  obtain ⟨name, c, hname, hi⟩ := h
  refine ⟨name, c, hname, ?_⟩
  induction a with
  | nil => exact hi
  | cons x a ih =>
    rcases List.infix_cons_iff.mp hi with hp | hi
    · exact absurd List.mem_cons_self ((List.cons_prefix_cons.mp hp).1 ▸ ha)
    · exact ih (fun hm => ha (List.mem_cons_of_mem x hm)) hi

theorem HasSigned.append {cs : List Char} (a : List Char) (h : HasSigned cs) :
    HasSigned (a ++ cs) := by
  obtain ⟨name, c, hname, hi⟩ := h
  exact ⟨name, c, hname, hi.trans (List.suffix_append a cs).isInfix⟩

theorem eq_of_append_semicolon {a b as bs : List Char} (ha : ';' ∉ a) (hb : ';' ∉ b)
    (h : a ++ ';' :: as = b ++ ';' :: bs) : a = b ∧ as = bs := by
  have hcut (a as : List Char) (ha : ';' ∉ a) : cutAt? [';'] (a ++ ';' :: as) = some (a, as) := by
    simpa using cutAt?_append (firstAt_singleton_iff.mpr ha) as
  rw [← Prod.mk.injEq, ← Option.some.injEq, ← hcut a as ha, h, hcut b bs hb]

/-- Signs are found where they are looked for: behind a reference, no occurrence begins in it. -/
theorem HasSigned.of_reference {name cs : List Char} {c : Char} (hname : Reference name c)
    (h : HasSigned ('&' :: (name ++ ';' :: cs))) : HasSigned cs := by
  have hplain := Admitted.plain (.inl hname)
  obtain ⟨name', d, hname', hi⟩ := h
  rcases List.infix_cons_iff.mp hi with ⟨rest, hp⟩ | hi
  · -- At the ampersand itself stands the well formed reference.
    have hplain' := Admitted.plain (.inr hname')
    rw [List.cons_append, List.append_assoc, List.singleton_append] at hp
    obtain ⟨rfl, -⟩ := eq_of_append_semicolon hplain'.1 hplain.1 (List.cons.inj hp).2
    exact absurd hname hname'.not_reference
  · have hcs : HasSigned ((name ++ [';']) ++ cs) := ⟨name', d, hname', by simpa using hi⟩
    exact hcs.of_append (by simp [hplain.2])

theorem Decoded.length_le {cs ds es : List Char} (h : Decoded Admitted cs es)
    (h' : Decoded Reference cs ds) :
    es.length ≤ ds.length ∧ (HasSigned cs → es.length < ds.length) := by
  induction h generalizing ds with
  | nil =>
    refine ⟨Nat.zero_le _, ?_⟩
    rintro ⟨name, c, -, hi⟩
    simp at hi
  | @reference name c cs es hname _ ih =>
    have hplain := hname.plain
    rcases hname with hname | hname
    · obtain ⟨fs, rfl, htail⟩ := h'.of_reference (fun _ _ => .inl) hname
      obtain ⟨hle, hlt⟩ := ih htail
      exact ⟨Nat.succ_le_succ hle, fun hs => Nat.succ_lt_succ (hlt (hs.of_reference hname))⟩
    · -- The signed reference is kept, a character at a time.
      rcases h'.cases_cons with ⟨name', d, rest, fs, hname', he, -, -⟩ | ⟨-, fs, rfl, htail⟩
      · have hplain' := Admitted.plain (.inl hname')
        obtain ⟨rfl, -⟩ := eq_of_append_semicolon hplain.1 hplain'.1 (List.cons.inj he).2
        exact absurd hname' hname.not_reference
      · rw [List.append_cons] at htail
        obtain ⟨gs, rfl, hgs⟩ := htail.of_append (by simp [hplain.2])
        obtain ⟨hle, -⟩ := ih hgs
        have hlt : es.length + 1 < (c :: (name ++ [';'] ++ gs)).length := by
          simp only [List.length_cons, List.length_append, List.length_nil]
          omega
        exact ⟨hlt.le, fun _ => hlt⟩
  | @keep c cs es hb _ ih =>
    rcases h'.cases_cons with ⟨name, d, rest, fs, hname, he, -, -⟩ | ⟨-, fs, rfl, htail⟩
    · exact absurd ⟨name, d, rest, .inl hname, he⟩ hb
    · obtain ⟨hle, hlt⟩ := ih htail
      refine ⟨Nat.succ_le_succ hle, ?_⟩
      rintro ⟨name, d, hname, hi⟩
      rcases List.infix_cons_iff.mp hi with ⟨rest, hp⟩ | hi
      · exact absurd ⟨name, d, rest, .inr hname, by simpa using hp.symm⟩ hb
      · exact Nat.succ_lt_succ (hlt ⟨name, d, hname, hi⟩)

theorem Decoded.of_not_hasSigned {cs ds : List Char} (h : Decoded Admitted cs ds)
    (hs : ¬ HasSigned cs) : Decoded Reference cs ds := by
  induction h with
  | nil => exact .nil
  | @reference name c cs ds hname _ ih =>
    rcases hname with hname | hname
    · refine .reference hname (ih fun h => hs ?_)
      simpa using h.append ('&' :: (name ++ [';']))
    · exact absurd ⟨name, c, hname, [], cs, by simp⟩ hs
  | @keep c cs ds hb _ ih =>
    refine .keep (fun hb' => hb ?_) (ih fun h => hs (h.append [c]))
    obtain ⟨name, d, rest, hname, he⟩ := hb'
    exact ⟨name, d, rest, .inl hname, he⟩

/-- References are decoded exactly as they are written, and beside the well formed ones only those
with a plus sign: a text is read as the well formed references alone say exactly if it has none of
these. -/
theorem decode_reads_references (cs : List Char) :
    (∀ ds, Decoded Admitted cs ds ↔ ds = decode cs) ∧
      (Decoded Reference cs (decode cs) ↔
        ∀ name c, Signed name c → ¬ '&' :: (name ++ [';']) <:+: cs) := by
  constructor
  · intro ds
    constructor
    · intro h
      exact h.unique (fun _ _ => id) (decoded_decode cs)
    · rintro rfl
      exact decoded_decode cs
  · constructor
    · intro h name c hname hi
      have hlt := ((decoded_decode cs).length_le h).2 ⟨name, c, hname, hi⟩
      exact Nat.lt_irrefl _ hlt
    · intro h
      exact (decoded_decode cs).of_not_hasSigned fun ⟨name, c, hname, hi⟩ => h name c hname hi

/-- A plus sign is taken for a part of the number, though no well formed reference has one. -/
theorem decode_plus_sign :
    Decoded Reference "&#+65;".toList "&#+65;".toList ∧ decode "&#+65;".toList = "A".toList ∧
      ¬ Decoded Reference "&#+65;".toList (decode "&#+65;".toList) := by
  have hsix : Digit 10 '6' 6 := by decide
  have hfive : Digit 10 '5' 5 := by decide
  have hnumber : Numeral 10 "65".toList 'A'.toNat := .concat (.single hsix) hfive
  have hsigned : Signed "#+65".toList 'A' := .decimal hnumber
  have hdecode : decode "&#+65;".toList = "A".toList := by
    have := decode_reference "#+65".toList (by decide) (reference?_iff.mpr (.inr hsigned)) []
    rwa [decode_nil] at this
  have hkept : Decoded Reference "&#+65;".toList "&#+65;".toList := by
    refine .keep ?_ (.of_plain (by decide))
    rintro ⟨name, c, rest, hname, he⟩
    have hplain := Admitted.plain (.inl hname)
    have he : "#+65".toList ++ ';' :: [] = name ++ ';' :: rest := (List.cons.inj he).2
    obtain ⟨rfl, -⟩ := eq_of_append_semicolon (by decide) hplain.1 he
    exact hsigned.not_reference hname
  refine ⟨hkept, hdecode, ?_⟩
  intro h
  have := h.unique (fun _ _ => .inl) hkept
  rw [hdecode] at this
  exact absurd this (by decide)

end Questionnaire.Markup

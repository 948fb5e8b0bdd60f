import Questionnaire.Json.Source
import Questionnaire.Proofs.Json.Literal

/-! # Scanning printed values

A printed value is scanned as the tree of that value and nothing behind it is touched, if no
number goes on there. This holds of every value without decimals, however deep.
-/

namespace Questionnaire.Json

/-- A value without decimals whose integers fit a word. -/
inductive Plain : Json → Prop where
  | null : Plain .null
  | bool (b : Bool) : Plain (.bool b)
  | integer {i : Int} : FitsWord i → Plain (.integer i)
  | string (s : String) : Plain (.string s)
  | array {vs : List Json} : (∀ v ∈ vs, Plain v) → Plain (.array vs)
  | object {ms : List (String × Json)} : (∀ m ∈ ms, Plain m.2) → Plain (.object ms)

namespace Source

mutual

/-- The tree of a value. That of a decimal is found by its text. -/
def ofJson : Json → Source
  | .null => .null
  | .bool b => .bool b
  | .integer i => .number (.ok (.ofInt i))
  | .decimal d => (scan d.text.toList).1
  | .string s => .string (.ofText s)
  | .array vs => .array (ofItems vs) none
  | .object ms => .object (ofMembers ms) none

def ofItems : List Json → List Source
  | [] => []
  | v :: vs => ofJson v :: ofItems vs

def ofMembers : List (String × Json) → List (StringLiteral × Source)
  | [] => []
  | (k, v) :: ms => (.ofText k, ofJson v) :: ofMembers ms

end

theorem skipSpace_cons {c : Char} {cs : List Char} (h : isSpace c = false) :
    skipSpace (c :: cs) = c :: cs := by
  simp [skipSpace, h]

theorem endsNumber_cons {c : Char} (h : c ∈ [',', ']', '\x7d']) (r : List Char) :
    EndsNumber (c :: r) := by
  rintro _ ⟨⟩
  simp only [List.mem_cons, List.not_mem_nil, or_false] at h
  rcases h with rfl | rfl | rfl <;> decide

def Begins (c : Char) : Prop := isSpace c = false ∧ c ≠ ']'

theorem begins_of_isDigit {c : Char} (h : c.isDigit = true) : Begins c := by
  constructor
  · cases hs : isSpace c with
    | false => rfl
    | true =>
      simp only [isSpace, Bool.or_eq_true, decide_eq_true_eq] at hs
      rcases hs with ((rfl | rfl) | rfl) | rfl <;> exact absurd h (by decide)
  · rintro rfl
    exact absurd h (by decide)

theorem exists_toDigits (n : Nat) :
    ∃ c cs, Nat.toDigits 10 n = c :: cs ∧ c.isDigit = true := by
  obtain ⟨c, cs, h⟩ := List.exists_cons_of_ne_nil (Nat.toDigits_ne_nil (n := n) (b := 10))
  exact ⟨c, cs, h, Nat.isDigit_of_mem_toDigits (by decide) (by decide)
    (h ▸ List.mem_cons_self)⟩

theorem exists_begins {v : Json} (h : Plain v) : ∃ c cs, v.chars = c :: cs ∧ Begins c := by
  cases h with
  | null => exact ⟨_, _, rfl, by decide, by decide⟩
  | bool b => cases b <;> exact ⟨_, _, rfl, by decide, by decide⟩
  | string s => exact ⟨_, _, rfl, by decide, by decide⟩
  | @array vs => cases vs <;> exact ⟨_, _, rfl, by decide, by decide⟩
  | @object ms => cases ms <;> exact ⟨_, _, rfl, by decide, by decide⟩
  | @integer i =>
    rw [chars, integerChars]
    split
    · exact ⟨_, _, rfl, by decide, by decide⟩
    · obtain ⟨c, cs, hc, hd⟩ := exists_toDigits i.natAbs
      exact ⟨c, cs, hc, begins_of_isDigit hd⟩

theorem scanValue_integerChars (fuel : Nat) (i : Int) {r : List Char} (hr : EndsNumber r) :
    scanValue (fuel + 1) (integerChars i ++ r) = (.number (.ok (.ofInt i)), r) := by
  rw [integerChars]
  split
  · next hi =>
    simp [scanValue, skipSpace_cons (by decide : isSpace '-' = false),
      scanNumber_toDigits true _ hr, NumberLiteral.ofInt, hi]
  · next hi =>
    obtain ⟨c, cs, hc, hd⟩ := exists_toDigits i.natAbs
    have hnum := scanNumber_toDigits false i.natAbs hr
    have hsym : c ∉ ['"', '[', '\x7b', 'n', 't', 'f', '-'] := by
      simp only [List.mem_cons, List.not_mem_nil, or_false]
      rintro (rfl | rfl | rfl | rfl | rfl | rfl | rfl) <;> cases hd
    simp only [List.mem_cons, List.not_mem_nil, or_false, not_or] at hsym
    rw [hc, List.cons_append] at hnum ⊢
    simp [scanValue, skipSpace_cons (begins_of_isDigit hd).1, digit?_eq, hd, hnum, hsym,
      NumberLiteral.ofInt, hi]

/-- Enough fuel scans the value, whatever stands behind it that is no part of a number. -/
def Scans (v : Json) : Prop :=
  ∀ fuel r, 2 * v.chars.length ≤ fuel → EndsNumber r →
    scanValue fuel (v.chars ++ r) = (ofJson v, r)

theorem endsNumber_itemChars (vs : List Json) (r : List Char) : EndsNumber (itemChars vs ++ r) := by
  cases vs <;> exact endsNumber_cons (by decide) _

theorem endsNumber_memberChars (ms : List (String × Json)) (r : List Char) :
    EndsNumber (memberChars ms ++ r) := by
  cases ms <;> exact endsNumber_cons (by decide) _

theorem exists_skipSpace_chars {v : Json} (h : Plain v) (r : List Char) :
    ∃ c cs, v.chars ++ r = c :: cs ∧ skipSpace (c :: cs) = c :: cs ∧ c ≠ ']' := by
  obtain ⟨c, cs, hc, hb⟩ := exists_begins h
  exact ⟨c, cs ++ r, by rw [hc, List.cons_append], skipSpace_cons hb.1, hb.2⟩

theorem scanItems_chars {v : Json} {vs : List Json} (hp : ∀ w ∈ v :: vs, Plain w)
    (hs : ∀ w ∈ v :: vs, Scans w) (fuel : Nat)
    (hf : 2 * (v.chars.length + (itemChars vs).length) ≤ fuel) (r : List Char) :
    scanItems fuel (v.chars ++ (itemChars vs ++ r)) = (ofItems (v :: vs), none, r) := by
  induction vs generalizing v fuel with
  | nil =>
    obtain ⟨fuel, rfl⟩ : ∃ n, fuel = n + 1 := ⟨fuel - 1, by simp [itemChars] at hf; omega⟩
    have hv := hs v List.mem_cons_self fuel (itemChars [] ++ r)
      (by simp [itemChars] at hf; omega) (endsNumber_itemChars [] r)
    rw [scanItems, hv]
    simp [itemChars, skipSpace_cons, isSpace, ofItems]
  | cons w ws ih =>
    simp only [itemChars, List.length_cons, List.length_append] at hf
    obtain ⟨fuel, rfl⟩ : ∃ n, fuel = n + 1 := ⟨fuel - 1, by omega⟩
    obtain ⟨hpv, hpw⟩ := List.forall_mem_cons.mp hp
    obtain ⟨hsv, hsw⟩ := List.forall_mem_cons.mp hs
    have hv := hsv fuel (itemChars (w :: ws) ++ r) (by omega) (endsNumber_itemChars _ r)
    have hw := ih hpw hsw fuel (by omega)
    obtain ⟨c, cs, hc, hskip, hne⟩ :=
      exists_skipSpace_chars (hpw w List.mem_cons_self) (itemChars ws ++ r)
    rw [scanItems, hv]
    rw [hc] at hw
    simp [itemChars, skipSpace_cons (by decide : isSpace ',' = false), hc, hskip, hne, hw, ofItems]

theorem scanMembers_chars {k : String} {v : Json} {ms : List (String × Json)}
    (hs : ∀ m ∈ (k, v) :: ms, Scans m.2) (fuel : Nat)
    (hf : 2 * ((stringChars k).length + v.chars.length + (memberChars ms).length) ≤ fuel)
    (r : List Char) :
    scanMembers fuel (stringChars k ++ ':' :: (v.chars ++ (memberChars ms ++ r))) =
      (ofMembers ((k, v) :: ms), none, r) := by
  induction ms generalizing k v fuel with
  | nil =>
    simp only [memberChars, List.length_cons, List.length_nil] at hf
    obtain ⟨fuel, rfl⟩ : ∃ n, fuel = n + 1 := ⟨fuel - 1, by omega⟩
    have hv := hs (k, v) List.mem_cons_self fuel (memberChars [] ++ r) (by simp only; omega)
      (endsNumber_memberChars [] r)
    simp only [stringChars, List.cons_append, List.append_assoc, List.nil_append, scanMembers,
      stringLiteral_stringChars, skipSpace_cons (by decide : isSpace ':' = false), hv]
    simp [memberChars, skipSpace_cons, isSpace, ofMembers]
  | cons m ms ih =>
    obtain ⟨k', w⟩ := m
    simp only [memberChars, List.length_cons, List.length_append] at hf
    obtain ⟨fuel, rfl⟩ : ∃ n, fuel = n + 1 := ⟨fuel - 1, by omega⟩
    obtain ⟨hsv, hsw⟩ := List.forall_mem_cons.mp hs
    have hv := hsv fuel (memberChars ((k', w) :: ms) ++ r) (by simp only; omega)
      (endsNumber_memberChars _ r)
    have hw := ih hsw fuel (by omega)
    simp only [stringChars, List.cons_append, List.append_assoc, List.nil_append, scanMembers,
      stringLiteral_stringChars, skipSpace_cons (by decide : isSpace ':' = false), hv] at hw ⊢
    simp [memberChars, stringChars, skipSpace_cons, isSpace, ofMembers, hw]

theorem Scans.of_succ {v : Json} (h : Plain v)
    (hs : ∀ fuel r, 2 * v.chars.length ≤ fuel + 1 → EndsNumber r →
      scanValue (fuel + 1) (v.chars ++ r) = (ofJson v, r)) : Scans v := by
  intro fuel r hf hr
  obtain ⟨c, cs, hc, -⟩ := exists_begins h
  obtain ⟨fuel, rfl⟩ : ∃ n, fuel = n + 1 := ⟨fuel - 1, by simp [hc] at hf; omega⟩
  exact hs fuel r hf hr

theorem scans_of_plain {v : Json} (h : Plain v) : Scans v := by
  -- A container takes a step of fuel and each thing in it another: twice the length covers both.
  induction h with
  | null =>
    refine .of_succ .null fun fuel r hf hr => ?_
    simp [chars, scanValue, skipSpace_cons, isSpace, scanWord, ofJson]
  | bool b =>
    refine .of_succ (.bool b) fun fuel r hf hr => ?_
    cases b <;> simp [chars, scanValue, skipSpace_cons, isSpace, scanWord, ofJson]
  | @integer i hi =>
    exact .of_succ (.integer hi) fun fuel r _ hr => scanValue_integerChars fuel i hr
  | string s =>
    refine .of_succ (.string s) fun fuel r hf hr => ?_
    simp [chars, stringChars, scanValue, skipSpace_cons, isSpace, stringLiteral_stringChars, ofJson]
  | @array vs h ih =>
    refine .of_succ (.array h) fun fuel r hf hr => ?_
    cases vs with
    | nil => simp [chars, scanValue, skipSpace_cons, isSpace, ofJson, ofItems]
    | cons v vs =>
      simp only [chars, List.length_cons, List.length_append] at hf
      have hvs := scanItems_chars h ih fuel (by omega) r
      obtain ⟨c, cs, hc, hskip, hne⟩ :=
        exists_skipSpace_chars (h v List.mem_cons_self) (itemChars vs ++ r)
      rw [hc] at hvs
      simp [chars, scanValue, skipSpace_cons (by decide : isSpace '[' = false), hc, hskip, hne,
        hvs, ofJson]
  | @object ms h ih =>
    refine .of_succ (.object h) fun fuel r hf hr => ?_
    cases ms with
    | nil => simp [chars, scanValue, skipSpace_cons, isSpace, ofJson, ofMembers]
    | cons m ms =>
      obtain ⟨k, v⟩ := m
      simp only [chars, List.length_cons, List.length_append] at hf
      have hms := scanMembers_chars ih fuel (by omega) r
      simp only [stringChars, List.cons_append, List.append_assoc, List.nil_append] at hms
      simp [chars, stringChars, scanValue, skipSpace_cons, isSpace, hms, ofJson]

/-- The text of a value is scanned to its end as the tree of the value. -/
theorem scan_chars {v : Json} (h : Plain v) : scan v.chars = (ofJson v, []) := by
  have hs := scans_of_plain h (2 * v.chars.length + 2) [] (by omega) (by rintro _ ⟨⟩)
  rwa [List.append_nil] at hs

end Source

end Questionnaire.Json

import Questionnaire.Json.Literal
import Questionnaire.Json.Printer

/-! # Reading printed literals

A printed integer is read as a number that ends where the digits end, and its value is the
integer again if it fits a word. A printed text may hold any characters: each is read from
its escape, and the text ends at the quote behind it.
-/

namespace Questionnaire.Json

/-- No character of a number stands at the front. -/
def EndsNumber (r : List Char) : Prop :=
  ∀ c ∈ r.head?, c.isDigit = false ∧ c ≠ '.' ∧ c ≠ 'e' ∧ c ≠ 'E'

def digitValue (c : Char) : Nat := c.toNat - '0'.toNat

theorem digit?_eq (c : Char) : digit? c = if c.isDigit then some (digitValue c) else none := by
  simp [digit?, digitValue, Char.isDigit, Char.le_def, UInt32.le_iff_toNat_le]

section Numbers

variable {r : List Char}

theorem takeDigits_of_endsNumber (hr : EndsNumber r) : takeDigits r = ([], r) := by
  cases r with
  | nil => rfl
  | cons c r => simp [takeDigits, digit?_eq, (hr c rfl).1]

theorem takeDigits_append {cs : List Char} (hd : ∀ c ∈ cs, c.isDigit = true)
    (hr : EndsNumber r) : takeDigits (cs ++ r) = (cs.map digitValue, r) := by
  induction cs with
  | nil => exact takeDigits_of_endsNumber hr
  | cons c cs ih =>
    obtain ⟨hc, hcs⟩ := List.forall_mem_cons.mp hd
    simp [takeDigits, digit?_eq, hc, ih hcs]

theorem scanFraction_of_endsNumber (hr : EndsNumber r) : scanFraction r = .ok ([], r) := by
  rw [scanFraction.eq_def]
  split
  · exact absurd rfl (hr '.' rfl).2.1
  · rfl

theorem scanExponent_of_endsNumber (hr : EndsNumber r) : scanExponent r = .ok (none, r) := by
  rw [scanExponent.eq_def]
  split
  · exact absurd rfl (hr 'e' rfl).2.2.1
  · exact absurd rfl (hr 'E' rfl).2.2.2
  · rfl

def digitsOf (n : Nat) : List Nat := (Nat.toDigits 10 n).map digitValue

theorem ofDigits_digitsOf (n : Nat) : NumberLiteral.ofDigits (digitsOf n) = n := by
  rw [NumberLiteral.ofDigits, digitsOf, List.foldl_map]
  exact Nat.ofDigitChars_eq_foldl.symm.trans Nat.ofDigitChars_ten_toDigits

theorem digitValue_digitChar : ∀ d < 10, digitValue (Nat.digitChar d) = d := by decide

theorem digitsOf_eq (n : Nat) :
    digitsOf n = if n < 10 then [n] else digitsOf (n / 10) ++ [n % 10] := by
  rw [digitsOf, Nat.toDigits_eq_if (by decide)]
  split
  · next h => simp [digitValue_digitChar n h]
  · simp [digitsOf, digitValue_digitChar (n % 10) (Nat.mod_lt n (by decide))]

theorem digitsOf_ne_nil (n : Nat) : digitsOf n ≠ [] := by simp [digitsOf]

theorem eq_zero_of_head?_digitsOf {n : Nat} (h : (digitsOf n).head? = some 0) : n = 0 := by
  induction n using Nat.strongRecOn with
  | ind n ih =>
    rw [digitsOf_eq] at h
    split at h
    · exact Option.some.inj h
    · next hn =>
      obtain ⟨d, ds, hd⟩ := List.exists_cons_of_ne_nil (digitsOf_ne_nil (n / 10))
      have := ih (n / 10) (by omega) (by simpa [hd] using h)
      omega

/-- An integer as it is read. -/
def NumberLiteral.ofInt (i : Int) : NumberLiteral := ⟨i < 0, digitsOf i.natAbs, [], none⟩

theorem someDigits_toDigits (n : Nat) (hr : EndsNumber r) :
    someDigits (Nat.toDigits 10 n ++ r) = .ok (digitsOf n, r) := by
  have hd : ∀ c ∈ Nat.toDigits 10 n, c.isDigit = true :=
    fun c => Nat.isDigit_of_mem_toDigits (by decide) (by decide)
  rw [someDigits, takeDigits_append hd hr]
  obtain ⟨d, ds, h⟩ := List.exists_cons_of_ne_nil (digitsOf_ne_nil n)
  rw [digitsOf] at h ⊢
  simp only [h]

theorem scanNumber_toDigits (negative : Bool) (n : Nat) (hr : EndsNumber r) :
    scanNumber negative (Nat.toDigits 10 n ++ r) = .ok (⟨negative, digitsOf n, [], none⟩, r) := by
  have hzero : ¬ ((digitsOf n).head? = some 0 ∧ (digitsOf n).length ≠ 1) := by
    rintro ⟨hz, hl⟩
    obtain rfl := eq_zero_of_head?_digitsOf hz
    exact hl rfl
  simp [scanNumber, someDigits_toDigits n hr, hzero, scanFraction_of_endsNumber hr,
    scanExponent_of_endsNumber hr, bind, Except.bind, pure, Except.pure]

def FitsWord (i : Int) : Prop := -(Nat.pow 2 63 : Nat) ≤ i ∧ i < NumberLiteral.word

theorem value?_ofInt {i : Int} (h : FitsWord i) :
    (NumberLiteral.ofInt i).value? = some (.integer i) := by
  obtain ⟨hlow, hhigh⟩ := h
  simp only [NumberLiteral.value?, NumberLiteral.ofInt, ofDigits_digitsOf, List.isEmpty_nil,
    Option.isNone_none, Bool.and_self, if_true]
  by_cases hi : i < 0
  · have hlow : (0 < i.natAbs ∧ i.natAbs ≤ Nat.pow 2 63) ∧ -(i.natAbs : Int) = i := by omega
    simp only [hi, hlow, decide_true, Bool.not_true, Bool.false_and, Bool.false_eq_true,
      Bool.and_self, if_true, if_false]
  · have hhigh : i.natAbs < NumberLiteral.word ∧ (i.natAbs : Int) = i := by omega
    simp only [hi, hhigh, decide_true, decide_false, Bool.not_false, Bool.and_self, if_true]

end Numbers

section Strings

theorem hexValue?_hexDigit : ∀ n < 16, hexValue? (hexDigit n) = some n := by decide

theorem hexUnit_control {n : Nat} (h : n < 32) (r : List Char) :
    hexUnit ('0' :: '0' :: hexDigit (n / 16) :: hexDigit (n % 16) :: r) = .ok (n, r) := by
  have hbytes : ¬ utf8Length ['0', '0', hexDigit (n / 16), hexDigit (n % 16)] < 4 := by
    have hx := Char.utf8Size_pos (hexDigit (n / 16))
    have hy := Char.utf8Size_pos (hexDigit (n % 16))
    have hz : ('0' : Char).utf8Size = 1 := rfl
    simp only [utf8Length_cons, utf8Length_nil, hz]
    omega
  have hzero : hexValue? '0' = some 0 := rfl
  simp only [hexUnit, List.take_succ_cons, List.take_zero, hbytes, if_false, hzero,
    hexValue?_hexDigit (n / 16) (by omega), hexValue?_hexDigit (n % 16) (by omega)]
  congr 2
  omega

theorem scanEscape_control {c : Char} (h : c.toNat < 32) (r : List Char) :
    scanEscape ('u' :: '0' :: '0' :: hexDigit (c.toNat / 16) :: hexDigit (c.toNat % 16) :: r) =
      .ok (.ok c, r) := by
  have hpair : pairUnit c.toNat r = .ok (c, r) := by
    rw [pairUnit.eq_def, if_neg (by omega), if_pos (by omega), Char.ofNat_toNat]
  simp only [scanEscape, hexUnit_control h, hpair]

theorem scanEscape_simple {c d : Char} (h : simpleEscape? d = some c) (r : List Char) :
    scanEscape (d :: r) = .ok (.ok c, r) := by
  have hu : d ≠ 'u' := by
    rintro rfl
    cases h
  simp [scanEscape, h]

theorem escapeChar_cases (c : Char) :
    (∃ cs, escapeChar c = '\\' :: cs ∧ ∀ r, scanEscape (cs ++ r) = .ok (.ok c, r)) ∨
      escapeChar c = [c] ∧ c ≠ '"' ∧ c ≠ '\\' ∧ ¬ c.toNat < 32 := by
  have hchar : ∀ d : Char, c.toNat = d.toNat → c = d := fun d => Char.toNat_inj.mp
  rw [escapeChar.eq_def]
  split
  · next h => exact .inl ⟨['"'], rfl, scanEscape_simple (by rw [h]; rfl)⟩
  next hq =>
  split
  · next h => exact .inl ⟨['\\'], rfl, scanEscape_simple (by rw [h]; rfl)⟩
  next hb =>
  split
  · next h => exact .inl ⟨_, rfl, scanEscape_simple (h ▸ rfl)⟩
  split
  · next h => exact .inl ⟨_, rfl, scanEscape_simple (h ▸ rfl)⟩
  split
  · next h => exact .inl ⟨_, rfl, scanEscape_simple (h ▸ rfl)⟩
  split
  · next h => exact .inl ⟨_, rfl, scanEscape_simple (hchar '\x08' h ▸ rfl)⟩
  split
  · next h => exact .inl ⟨_, rfl, scanEscape_simple (hchar '\x0c' h ▸ rfl)⟩
  split
  · next h => exact .inl ⟨_, rfl, scanEscape_control h⟩
  · next h => exact .inr ⟨rfl, hq, hb, h⟩

theorem length_le_flatMap_escapeChar (cs : List Char) :
    cs.length ≤ (cs.flatMap escapeChar).length := by
  induction cs with
  | nil => exact Nat.le_refl 0
  | cons c cs ih =>
    have hc : 0 < (escapeChar c).length := by
      rcases escapeChar_cases c with ⟨_, he, -⟩ | ⟨he, -⟩ <;> simp [he]
    simp only [List.flatMap_cons, List.length_append, List.length_cons]
    omega

/-- The text of a string as it is read, and its bare shape without a fault. -/
def StringLiteral.ofText (s : String) : StringLiteral := ⟨.ok s, none⟩

theorem scanString_escapeChar (fuel : Nat) (done r : List Char) (c : Char) :
    scanString (fuel + 1) none done (escapeChar c ++ r) = scanString fuel none (c :: done) r := by
  rcases escapeChar_cases c with ⟨cs, he, hs⟩ | ⟨he, hq, hb, hc⟩
  · simp only [he, List.cons_append, scanString, hs]
  · simp [he, scanString, hc]

theorem scanString_escaped {cs : List Char} {fuel : Nat} (h : cs.length < fuel)
    (done r : List Char) : scanString fuel none done (cs.flatMap escapeChar ++ '"' :: r) =
      (.ofText (String.ofList (done.reverse ++ cs)), r) := by
  induction cs generalizing fuel done with
  | nil =>
    obtain ⟨fuel, rfl⟩ : ∃ n, fuel = n + 1 := ⟨fuel - 1, by simp at h; omega⟩
    simp [scanString, StringLiteral.ofText]
  | cons c cs ih =>
    obtain ⟨fuel, rfl⟩ : ∃ n, fuel = n + 1 := ⟨fuel - 1, by simp at h; omega⟩
    rw [List.flatMap_cons, List.append_assoc, scanString_escapeChar,
      ih (by simpa using h), List.reverse_cons, List.append_assoc]
    rfl

/-- A printed text is read as that text, whatever stands behind it. -/
theorem stringLiteral_stringChars (s : String) (r : List Char) :
    stringLiteral (s.toList.flatMap escapeChar ++ '"' :: r) = (.ofText s, r) := by
  have h := length_le_flatMap_escapeChar s.toList
  rw [stringLiteral, scanString_escaped (by rw [List.length_append]; omega)]
  simp

end Strings

end Questionnaire.Json

/-! # Decimal numbers

A decimal is a signed coefficient scaled by a power of ten. Its text is
positional while the point stands close to the digits and has an exponent
elsewhere; it always shows a fraction or an exponent.
-/

namespace Questionnaire

/-- The number `±coefficient · 10 ^ exponent`. -/
structure Decimal where
  negative : Bool
  coefficient : Nat
  exponent : Int
  deriving DecidableEq, Repr

namespace Decimal

def zeros (n : Nat) : List Char := List.replicate n '0'

def unsignedChars (coefficient : Nat) (exponent : Int) : List Char :=
  let digits := Nat.toDigits 10 coefficient
  let point := digits.length + exponent
  if coefficient = 0 then ['0', '.', '0']
  else if 0 ≤ exponent ∧ point ≤ 16 then digits ++ zeros exponent.toNat ++ ['.', '0']
  else if 0 < point ∧ point ≤ 16 then
    digits.take point.toNat ++ '.' :: digits.drop point.toNat
  else if -5 < point ∧ point ≤ 0 then '0' :: '.' :: zeros (-point).toNat ++ digits
  else
    digits.take 1 ++ (if digits.length = 1 then [] else '.' :: digits.drop 1) ++
      'e' :: (if 0 < point then ['+'] else []) ++ (toString (point - 1)).toList

/-- Positional when the point stands less than five places before the first digit and
at most sixteen behind it. An exponent shows its sign, plus or minus. -/
def text (d : Decimal) : String :=
  String.ofList ((if d.negative then ['-'] else []) ++ unsignedChars d.coefficient d.exponent)

end Decimal

end Questionnaire

/-! # Blank characters

A blank is a character with the Unicode property White_Space. Command lines,
class lists and the inside of tags are cut at blanks.
-/

namespace Questionnaire.Text

def isBlank (c : Char) : Bool :=
  let n := c.toNat
  (9 ≤ n && n ≤ 13) || n == 0x20 || n == 0x85 || n == 0xA0 || n == 0x1680 ||
    (0x2000 ≤ n && n ≤ 0x200A) || n == 0x2028 || n == 0x2029 || n == 0x202F ||
    n == 0x205F || n == 0x3000

/-- The characters with leading blanks left out. -/
def trimStart (cs : List Char) : List Char := cs.dropWhile isBlank

/-- The characters without blanks at either end. -/
def trim (cs : List Char) : List Char :=
  (trimStart (trimStart cs).reverse).reverse

/-- The maximal runs of characters that are not blank, in order. -/
def words (cs : List Char) : List (List Char) :=
  match cs with
  | [] => []
  | c :: r =>
    if isBlank c then words r
    else (c :: r.takeWhile (!isBlank ·)) :: words (r.dropWhile (!isBlank ·))
termination_by cs.length
decreasing_by
  · simp
  · have := (List.dropWhile_sublist (!isBlank ·) (l := r)).length_le
    simp only [List.length_cons]
    omega

end Questionnaire.Text

import Questionnaire.Proofs.Markup.Cursor
import Questionnaire.Proofs.Markup.Entity
import Questionnaire.Proofs.Markup.RoundTrip
import Questionnaire.Proofs.Markup.Source

/-! # The walk ends

Every round of the parser's loops slices its text between characters and leaves less of it, so the
walk over byte offsets ends for every markup, with the same document as the parser.
-/

namespace Questionnaire.Markup

open Text

section References

variable {cs : List Char}

theorem decode_append {a : List Char} (h : '&' ∉ a) (cs : List Char) :
    decode (a ++ cs) = a ++ decode cs := by
  induction a with
  | nil => rfl
  | cons c a ih =>
    have hc : c ≠ '&' := fun he => h (he ▸ List.mem_cons_self)
    rw [List.cons_append, decode_cons_of_ne hc, ih fun ha => h (List.mem_cons_of_mem c ha)]
    rfl

theorem decode_cons_and (cs : List Char) : decode ('&' :: cs) =
    match cutReference? cs with
    | some (c, rest) => c :: decode rest
    | none => '&' :: decode cs := by
  rw [decode.eq_def]
  simp only [if_true]
  split <;> simp_all

theorem suffix_of_cutReference? {c : Char} {rest : List Char}
    (h : cutReference? cs = some (c, rest)) : rest <:+ cs := by
  rw [cutReference?] at h
  split at h
  · cases h
  · next name rest' hcut =>
    simp only [Option.map_eq_some_iff, Prod.mk.injEq] at h
    obtain ⟨_, _, _, rfl⟩ := h
    exact ⟨name ++ [';'], (eq_append_of_cutAt? hcut).symm⟩

namespace Cursor

theorem reference?_eq (cs : List Char) : reference? ('&' :: cs) =
    some ((cutReference? cs).map fun (c, rest) => (c, offset ('&' :: cs) rest)) := by
  rw [reference?, findMark?_cons (by simp), cutReference?, findMark?]
  cases hcut : cutAt? [';'] cs with
  | none => rfl
  | some p =>
    obtain ⟨name, rest⟩ := p
    obtain rfl : cs = name ++ ';' :: rest := by simpa using eq_append_of_cutAt? hcut
    have hname : range? ('&' :: (name ++ ';' :: rest)) 1 (1 + utf8Length name) = some name := by
      have := range?_append ['&'] name (';' :: rest)
      rwa [List.append_assoc] at this
    have hend : offset ('&' :: (name ++ ';' :: rest)) rest = 1 + utf8Length name + 1 := by
      have := offset_append ('&' :: name ++ [';']) rest
      rw [List.append_assoc, utf8Length_append] at this
      exact this
    change (range? _ 1 (1 + utf8Length name)).bind _ = _
    rw [hname]
    simp [Function.comp_def, hend, Char.utf8Size]

theorem decodeRound?_of_not_mem (h : '&' ∉ cs) : decodeRound? cs = some (cs, none) := by
  rw [decodeRound?, findMark?_eq_none_iff.mpr (by rwa [List.singleton_infix_iff])]
  rfl

theorem decodeRound?_append {a : List Char} (h : '&' ∉ a) (cs : List Char) :
    decodeRound? (a ++ '&' :: cs) = some (match cutReference? cs with
      | some (c, rest) => (a ++ [c], some rest)
      | none => (a ++ ['&'], some cs)) := by
  have hmark : findMark? ['&'] (a ++ '&' :: cs) = some (utf8Length a) := by
    simpa using findMark?_append (firstAt_singleton_iff.mpr h) cs
  rw [decodeRound?, hmark]
  simp only [takeBytes?_append, dropBytes?_append, reference?_eq, Option.bind_eq_bind,
    Option.bind_some]
  cases hcut : cutReference? cs with
  | none =>
    have hrest : dropBytes? ('&' :: cs) 1 = some cs := dropBytes?_append ['&'] cs
    simp [hrest]
  | some p =>
    obtain ⟨c, rest⟩ := p
    have hrest : dropBytes? ('&' :: cs) (offset ('&' :: cs) rest) = some rest :=
      dropBytes?_offset ((suffix_of_cutReference? hcut).trans (List.suffix_cons _ cs))
    simp [hrest]

theorem loop?_decodeStep? (out cs : List Char) :
    loop? decodeStep? (out, cs) = some (out ++ decode cs) := by
  induction hn : cs.length using Nat.strong_induction_on generalizing out cs with
  | _ n ih =>
    subst hn
    rw [loop?_eq, decodeStep?]
    by_cases h : '&' ∈ cs
    · obtain ⟨a, r, rfl, ha⟩ := List.eq_append_cons_of_mem h
      have hr : r.length < (a ++ '&' :: r).length := by
        simp only [List.length_append, List.length_cons]
        omega
      rw [decodeRound?_append ha, decode_append ha, decode_cons_and]
      cases hcut : cutReference? r with
      | none => simp [ih _ hr _ r rfl]
      | some p =>
        have hrest := length_lt_of_cutReference? hcut
        simp [ih _ (hrest.trans hr) _ p.2 rfl]
    · rw [decodeRound?_of_not_mem h]
      simpa [decode_nil] using (decode_append h []).symm

theorem decode?_eq (cs : List Char) : decode? cs = some (decode cs) :=
  loop?_decodeStep? [] cs

/-- Every round of the loop over references slices between characters, and it is the last one or
leaves less of the value. -/
theorem exists_decodeRound? (cs : List Char) : ∃ out next, decodeRound? cs = some (out, next) ∧
    ∀ rest ∈ next, rest <:+ cs ∧ rest ≠ cs := by
  by_cases h : '&' ∈ cs
  · obtain ⟨a, r, rfl, ha⟩ := List.eq_append_cons_of_mem h
    have hless {rest : List Char} (hr : rest <:+ r) :
        rest <:+ a ++ '&' :: r ∧ rest ≠ a ++ '&' :: r := by
      refine ⟨hr.trans ⟨a ++ ['&'], by simp⟩, ?_⟩
      rintro rfl
      have := hr.length_le
      simp only [List.length_append, List.length_cons] at this
      omega
    rw [decodeRound?_append ha]
    cases hcut : cutReference? r with
    | none => exact ⟨_, _, rfl, by simpa using hless List.suffix_rfl⟩
    | some p => exact ⟨_, _, rfl, by simpa using hless (suffix_of_cutReference? hcut)⟩
  · exact ⟨_, _, decodeRound?_of_not_mem h, by simp⟩

end Cursor

end References

namespace Cursor

section Attributes

variable {input cs : List Char}

theorem quotedValue?_eq {q : Char} (hq : q.utf8Size = 1) (r : List Char) (pos : Nat) :
    quotedValue? q (q :: r) pos =
      some ((Tag.quotedValue? q r).map fun (v, rest) => (v, pos + offset (q :: r) rest)) := by
  have hr : dropBytes? (q :: r) 1 = some r := by
    have := dropBytes?_append [q] r
    rwa [utf8Length_cons, hq] at this
  rw [quotedValue?, hr, Option.bind_eq_bind, Option.bind_some, Tag.quotedValue?, findMark?]
  cases hcut : cutAt? [q] r with
  | none => rfl
  | some p =>
    obtain ⟨a, rest⟩ := p
    obtain rfl : r = a ++ q :: rest := by simpa using eq_append_of_cutAt? hcut
    have hvalue : range? (q :: (a ++ q :: rest)) 1 (utf8Length a + 1) = some a := by
      have := range?_append [q] a (q :: rest)
      rwa [List.append_assoc, utf8Length_cons, hq, utf8Length_nil, Nat.add_comm _ (utf8Length a)]
        at this
    have hend : offset (q :: (a ++ q :: rest)) rest = utf8Length a + 2 := by
      have := offset_append (q :: a ++ [q]) rest
      rw [List.append_assoc, utf8Length_append, utf8Length_cons, utf8Length_cons, hq] at this
      rw [utf8Length_nil] at this
      exact this.trans (by omega)
    simp [hvalue, hend, decode?_eq]

theorem quotedValue?_offset {q : Char} (hq : q.utf8Size = 1) {r : List Char}
    (h : q :: r <:+ input) : quotedValue? q (q :: r) (offset input (q :: r)) =
      some ((Tag.quotedValue? q r).map fun (v, rest) => (v, offset input rest)) := by
  rw [quotedValue?_eq hq]
  cases hv : Tag.quotedValue? q r with
  | none => rfl
  | some p =>
    have hp := (Tag.suffix_of_quotedValue? hv).trans (List.suffix_cons q r)
    simp only [Option.map_some, offset_trans h hp]

theorem value?_eq (h : cs <:+ input) : value? input (offset input (trimStart cs)) =
    some ((Tag.value? cs).map fun (v, rest) => (v, offset input rest)) := by
  have htrim : trimStart cs <:+ input := (Tag.trimStart_suffix cs).trans h
  rw [value?, dropBytes?_offset htrim, Tag.value?]
  generalize trimStart cs = r at htrim
  split
  · exact quotedValue?_offset rfl htrim
  · exact quotedValue?_offset rfl htrim
  · next hquote hsingle =>
    have hend := offset_trans htrim (List.dropWhile_suffix (!Tag.endsBareValue ·))
    rw [offset_dropWhile] at hend
    simp only [Option.bind_eq_bind, Option.bind_some]
    rw [takeBytes?_find?, hend]
    simp [decode?_eq]

theorem skipBlanks?_eq (h : cs <:+ input) :
    skipBlanks? input (offset input cs) = some (offset input (trimStart cs)) := by
  have htrim := Tag.trimStart_suffix cs
  rw [skipBlanks?, dropBytes?_offset h]
  simp [sub?_suffix htrim, offset_trans h htrim]

def Round.ofAttribute (input : List Char) : Option ((String × Option String) × List Char) → Round
  | none => .unclosed
  | some ((name, value), rest) => .read name value (offset input rest)

/-- What a round comes to, by the text at its place. -/
def Round.ofChars (input cs : List Char) : Round :=
  match trimStart cs with
  | [] => .unclosed
  | '>' :: r => .closed false (offset input r)
  | '/' :: '>' :: r => .closed true (offset input r)
  | '/' :: r => .skipped (offset input r)
  | c :: r => .ofAttribute input (Tag.attributeAt? c r)

/-- The name of an attribute is what is in front of the first character that ends it, also where
that is the first character of all. -/
theorem attributeAt?_eq {c : Char} (hb : isBlank c = false) (hg : c ≠ '>') (hs : c ≠ '/')
    (r : List Char) : Tag.attributeAt? c r =
      match dropMark? ['='] (trimStart ((c :: r).dropWhile (!Tag.endsAttributeName ·))) with
      | some v => (Tag.value? v).map fun (value, rest) =>
        ((lower ((c :: r).takeWhile (!Tag.endsAttributeName ·)), some value), rest)
      | none => some ((lower ((c :: r).takeWhile (!Tag.endsAttributeName ·)), none),
        (c :: r).dropWhile (!Tag.endsAttributeName ·)) := by
  rw [Tag.attributeAt?]
  split
  · next hc =>
    -- the name is empty, and its end is the equals sign itself
    subst hc
    have hdrop : ('=' :: r).dropWhile (!Tag.endsAttributeName ·) = '=' :: r := rfl
    have hmark : dropMark? ['='] ('=' :: r) = some r := dropMark?_append ['='] r
    rw [hdrop, trimStart_cons_of_not_blank hb, hmark]
    rfl
  · next hc =>
    have hends : Tag.endsAttributeName c = false := by simp [Tag.endsAttributeName, hb, hg, hs, hc]
    have hdrop : (c :: r).dropWhile (!Tag.endsAttributeName ·) =
        r.dropWhile (!Tag.endsAttributeName ·) := by simp [hends]
    have htake : (c :: r).takeWhile (!Tag.endsAttributeName ·) =
        c :: r.takeWhile (!Tag.endsAttributeName ·) := by simp [hends]
    rw [hdrop, htake]
    simp only
    split
    · next v hv =>
      have hmark : dropMark? ['='] ('=' :: v) = some v := dropMark?_append ['='] v
      rw [hv, hmark]
    · next hno =>
      have hmark : dropMark? ['='] (trimStart (r.dropWhile (!Tag.endsAttributeName ·))) = none := by
        rw [dropMark?_eq_none_iff]
        rintro ⟨v, hv⟩
        exact hno v hv.symm
      rw [hmark]

theorem offset_value {behind v : List Char} (h : behind <:+ input)
    (hv : trimStart behind = '=' :: v) :
    offset input behind + (offset behind (trimStart behind) + 1) + offset v (trimStart v) =
      offset input (trimStart v) := by
  have htrim := Tag.trimStart_suffix behind
  have hequals := offset_trans h htrim
  have hsign : offset ('=' :: v) v = 1 := offset_append ['='] v
  rw [hv] at htrim hequals ⊢
  have hv' := offset_trans (htrim.trans h) (List.suffix_cons '=' v)
  have hvalue := offset_trans ((List.suffix_cons '=' v).trans (htrim.trans h))
    (Tag.trimStart_suffix v)
  omega

theorem attribute?_eq {c : Char} {r : List Char} (h : c :: r <:+ input) (hb : isBlank c = false)
    (hg : c ≠ '>') (hs : c ≠ '/') :
    attribute? input (offset input (c :: r)) (c :: r) =
      some (.ofAttribute input (Tag.attributeAt? c r)) := by
  have hdrop := List.dropWhile_suffix (!Tag.endsAttributeName ·) (l := c :: r)
  have hbehind := offset_trans h hdrop
  rw [offset_dropWhile] at hbehind
  rw [attribute?, takeBytes?_find?, hbehind, dropBytes?_offset (hdrop.trans h),
    attributeAt?_eq hb hg hs]
  have hinput := hdrop.trans h
  generalize (c :: r).dropWhile (!Tag.endsAttributeName ·) = behind at hinput
  generalize (c :: r).takeWhile (!Tag.endsAttributeName ·) = name
  simp only [Option.bind_eq_bind, Option.bind_some]
  cases hmark : dropMark? ['='] (trimStart behind) with
  | none => rfl
  | some v =>
    have hv : trimStart behind = '=' :: v := dropMark?_eq_some_iff.mp hmark
    have htrim := Tag.trimStart_suffix behind
    have hinput' : v <:+ input := ((List.suffix_cons '=' v).trans (hv ▸ htrim)).trans hinput
    simp only
    rw [sub?_suffix htrim, sub?_suffix (Tag.trimStart_suffix v)]
    simp only [Option.bind_some]
    rw [offset_value hinput hv, value?_eq hinput']
    cases Tag.value? v <;> rfl

theorem attributeRound?_eq (h : cs <:+ input) :
    attributeRound? input (offset input cs) = some (.ofChars input cs) := by
  have htrim : trimStart cs <:+ input := (Tag.trimStart_suffix cs).trans h
  have hblank : ∀ c ∈ (trimStart cs).head?, isBlank c = false := by
    intro c hc
    have hhead := List.head?_dropWhile_not isBlank cs
    rwa [show (cs.dropWhile isBlank).head? = some c from hc] at hhead
  rw [attributeRound?, skipBlanks?_eq h, Round.ofChars]
  simp only [Option.bind_eq_bind, Option.bind_some]
  rw [dropBytes?_offset htrim]
  generalize trimStart cs = rest at htrim hblank
  simp only [Option.bind_some]
  split
  · rfl
  · next r =>
    exact congrArg (fun n => some (Round.closed false n)) (offset_add (a := ['>']) htrim)
  · next r =>
    exact congrArg (fun n => some (Round.closed true n)) (offset_add (a := ['/', '>']) htrim)
  · next r hr =>
    have hpos : offset input ('/' :: r) + 1 = offset input r := offset_add (a := ['/']) htrim
    simpa [hr] using hpos
  · next hnil hclosed hself hslash =>
    split
    · exact absurd rfl hnil
    · next r => exact absurd rfl (hclosed r)
    · next r => exact absurd rfl (hself r)
    · next r _ => exact absurd rfl (hslash r)
    · next c r hg hs hs' =>
      refine attribute?_eq htrim (hblank c rfl) ?_ ?_
      · rintro rfl
        exact hg rfl
      · rintro rfl
        exact hs' rfl

theorem loop?_attributeStep?_round (h : cs <:+ input) (as : List (String × Option String)) :
    loop? (attributeStep? input) (as, offset input cs) =
      Sum.elim some (loop? (attributeStep? input)) ((Round.ofChars input cs).behind as) := by
  rw [loop?_eq, attributeStep?, attributeRound?_eq h]
  rfl

theorem loop?_attributeStep? (h : cs <:+ input) (as : List (String × Option String)) :
    loop? (attributeStep? input) (as, offset input cs) =
      some ((Tag.attributes? cs).map fun (bs, selfClosing, rest) =>
        (as ++ bs, selfClosing, offset input rest)) := by
  rw [loop?_attributeStep?_round h]
  fun_induction Tag.attributes? cs generalizing as with
  | case1 cs ht => simp [Round.ofChars, Round.behind, ht]
  | case2 cs r ht => simp [Round.ofChars, Round.behind, ht]
  | case3 cs r ht => simp [Round.ofChars, Round.behind, ht]
  | case4 cs r hr ht ih =>
    have hround : Round.ofChars input cs = .skipped (offset input r) := by
      simp [Round.ofChars, ht]
    have hrest : r <:+ input :=
      ((List.suffix_cons '/' r).trans (ht ▸ Tag.trimStart_suffix cs)).trans h
    rw [hround, ← ih hrest]
    exact loop?_attributeStep?_round hrest as
  | case5 cs c r hg hself hs ht hattr =>
    have hround : Round.ofChars input cs = .unclosed := by
      simp [Round.ofChars, ht, hattr, Round.ofAttribute]
    rw [hround]
    rfl
  | case6 cs c r hg hself hs ht a behind hattr ih =>
    have hround : Round.ofChars input cs = .read a.1 a.2 (offset input behind) := by
      simp [Round.ofChars, ht, hattr, Round.ofAttribute]
    have hrest : behind <:+ input :=
      ((Tag.suffix_of_attributeAt? hattr).trans (List.suffix_cons c r)).trans
        ((ht ▸ Tag.trimStart_suffix cs).trans h)
    have hnext := (loop?_attributeStep?_round hrest (as ++ [a])).trans (ih hrest _)
    rw [hround, Round.behind, Sum.elim_inr, hnext]
    cases Tag.attributes? behind <;> simp

theorem attributes?_eq (h : cs <:+ input) : attributes? input (offset input cs) =
    some ((Tag.attributes? cs).map fun (as, selfClosing, rest) =>
      (as, selfClosing, offset input rest)) :=
  loop?_attributeStep? h []

/-- The offset is in the text, directly behind a closing bracket. -/
def EndsTag (input : List Char) (n : Nat) : Prop :=
  n ≤ utf8Length input ∧ ∃ a b, input = a ++ '>' :: b ∧ utf8Length (a ++ ['>']) = n

theorem endsTag_offset {a rest : List Char} (h : input = a ++ '>' :: rest) :
    EndsTag input (offset input rest) := by
  refine ⟨Nat.sub_le _ _, a, rest, h, ?_⟩
  rw [← offset_append (a ++ ['>']) rest, List.append_assoc, h]
  rfl

/-- A round ends the loop, behind the bracket of the tag if it is closed, or moves on. -/
def Round.Advances (input : List Char) (pos : Nat) : Round → Prop
  | .unclosed => True
  | .closed _ consumed => EndsTag input consumed
  | .skipped next | .read _ _ next => pos < next ∧ IsBoundary input next

theorem advances_of_suffix {c : Char} {r rest : List Char} (h : cs <:+ input) (hc : c :: r <:+ cs)
    (hrest : rest <:+ r) :
    offset input cs < offset input rest ∧ IsBoundary input (offset input rest) := by
  have hr := (List.suffix_cons c r).trans hc
  refine ⟨offset_lt h (hrest.trans hr) ?_, isBoundary_iff.mpr ⟨rest, (hrest.trans hr).trans h, rfl⟩⟩
  rintro rfl
  have := hc.length_le
  have := hrest.length_le
  simp only [List.length_cons] at *
  omega

theorem Round.advances_ofChars (h : cs <:+ input) :
    (Round.ofChars input cs).Advances input (offset input cs) := by
  have htrim := Tag.trimStart_suffix cs
  have hclosed {a r : List Char} (ha : a ++ '>' :: r <:+ cs) : EndsTag input (offset input r) := by
    obtain ⟨b, hb⟩ := ha.trans h
    exact endsTag_offset (a := b ++ a) (by rw [← hb, List.append_assoc])
  rw [Round.ofChars]
  split
  · trivial
  · next r hr => exact hclosed (a := []) (hr ▸ htrim)
  · next r hr =>
    rw [hr] at htrim
    exact hclosed (a := ['/']) htrim
  · next r _ hr => exact advances_of_suffix h (hr ▸ htrim) List.suffix_rfl
  · next c r _ _ _ hr =>
    cases hattr : Tag.attributeAt? c r with
    | none => trivial
    | some a => exact advances_of_suffix h (hr ▸ htrim) (Tag.suffix_of_attributeAt? hattr)

/-- Every round of the loop over attributes slices between characters, and ends the loop or moves
on. -/
theorem exists_attributeRound? {pos : Nat} (h : IsBoundary input pos) :
    ∃ r, attributeRound? input pos = some r ∧ r.Advances input pos := by
  obtain ⟨cs, hcs, rfl⟩ := isBoundary_iff.mp h
  exact ⟨_, attributeRound?_eq hcs, Round.advances_ofChars hcs⟩

theorem startTag?_eq (cs : List Char) : startTag? ('<' :: cs) =
    some ((Tag.ofChars? cs).map fun (tag, selfClosing, rest) =>
      (tag, selfClosing, offset ('<' :: cs) rest)) := by
  have hdrop : dropBytes? ('<' :: cs) 1 = some cs := dropBytes?_append ['<'] cs
  rw [startTag?, hdrop, Tag.ofChars?, Option.bind_eq_bind, Option.bind_some]
  by_cases hany : cs.any Tag.endsName = true
  · have hcs := List.takeWhile_append_dropWhile (p := (!Tag.endsName ·)) (l := cs)
    have hname : range? ('<' :: cs) 1 (1 + utf8Length (cs.takeWhile (!Tag.endsName ·))) =
        some (cs.takeWhile (!Tag.endsName ·)) := by
      have := range?_append ['<'] (cs.takeWhile (!Tag.endsName ·))
        (cs.dropWhile (!Tag.endsName ·))
      rwa [List.append_assoc, hcs] at this
    have hpos : 1 + utf8Length (cs.takeWhile (!Tag.endsName ·)) =
        offset ('<' :: cs) (cs.dropWhile (!Tag.endsName ·)) := by
      have := offset_append ('<' :: cs.takeWhile (!Tag.endsName ·))
        (cs.dropWhile (!Tag.endsName ·))
      rw [List.cons_append, hcs] at this
      exact this.symm
    have hattributes := attributes?_eq ((List.dropWhile_suffix (!Tag.endsName ·)).trans
      (List.suffix_cons '<' cs))
    rw [← hpos] at hattributes
    simp only [find?, hany, if_true, hname, hattributes, Option.bind_some]
    cases Tag.attributes? (cs.dropWhile (!Tag.endsName ·)) <;> rfl
  · have hnil : cs.dropWhile (!Tag.endsName ·) = [] := by
      simpa [List.dropWhile_eq_nil_iff] using hany
    have hnone : Tag.attributes? [] = none := by
      rw [Tag.attributes?]
      rfl
    rw [hnil, hnone, find?, if_neg hany]
    rfl

theorem exists_startTag? (cs : List Char) : ∃ r, startTag? ('<' :: cs) = some r ∧
    ∀ tag selfClosing consumed, r = some (tag, selfClosing, consumed) →
      EndsTag ('<' :: cs) consumed := by
  refine ⟨_, startTag?_eq cs, fun tag selfClosing consumed hr => ?_⟩
  simp only [Option.map_eq_some_iff, Prod.mk.injEq] at hr
  obtain ⟨⟨t, sc, rest⟩, ht, -, -, rfl⟩ := hr
  obtain ⟨a, rfl⟩ := Tag.exists_of_ofChars? ht
  exact endsTag_offset (a := '<' :: a) rfl

end Attributes

end Cursor

end Questionnaire.Markup

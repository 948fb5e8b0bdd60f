import Questionnaire.Proofs.Markup.Progress

/-! # The walk over a markup

A round of the loop over a markup reads one token, with the raw body behind it, and moves on to the
text behind both. The walk ends at the end of the markup, with the document of all tokens.
-/

namespace Questionnaire.Markup

open Text

section Lower

theorem utf8Size_toLower (c : Char) : c.toLower.utf8Size = c.utf8Size := by
  by_cases hu : c.isUpper = true
  · have hletters : ∀ n < 91, (Char.ofNat n).toLower.utf8Size = (Char.ofNat n).utf8Size := by
      decide +kernel
    have hlt : c.toNat < 91 := by
      simp only [Char.isUpper, decide_eq_true_eq] at hu
      exact Nat.lt_succ_of_le (UInt32.le_iff_toNat_le.mp hu.2)
    simpa using hletters c.toNat hlt
  · rw [Char.toLower_eq_of_not_isUpper hu]

theorem findMark?_toLower (name : String) (cs : List Char) :
    findMark? ('<' :: '/' :: name.toList) (cs.map Char.toLower) =
      (cutBefore? (Token.beginsClosing name) cs).map (utf8Length ·.1) := by
  induction cs with
  | nil => rfl
  | cons c cs ih =>
    rw [cutBefore?]
    split
    · next h => exact findMark?_of_prefix (beginsClosing_iff.mp h)
    · next h =>
      rw [beginsClosing_iff] at h
      rw [List.map_cons, findMark?_cons h, ih, Option.map_map, Option.map_map, utf8Size_toLower]
      rfl

theorem findMark?_rawBody (name : String) (cs : List Char) :
    (findMark? ('<' :: '/' :: name.toList) (cs.map Char.toLower)).getD (utf8Length cs) =
      utf8Length (Token.rawBody name cs).1 := by
  rw [findMark?_toLower, Token.rawBody]
  cases cutBefore? (Token.beginsClosing name) cs <;> rfl

end Lower

namespace Token

variable {c : Char} {cs rest r : List Char} {t : Token}

theorem body_textAt (h : textAt c cs = (t, rest)) : t.body r = ([], r) := by
  obtain ⟨rfl, -⟩ := Prod.mk.inj h
  rfl

theorem body_commentAt (h : commentAt cs = (t, rest)) : t.body r = ([], r) := by
  rw [commentAt] at h
  split at h <;> obtain ⟨rfl, -⟩ := Prod.mk.inj h <;> rfl

theorem body_declarationAt (h : declarationAt cs = (t, rest)) : t.body r = ([], r) := by
  rw [declarationAt] at h
  split at h <;> obtain ⟨rfl, -⟩ := Prod.mk.inj h <;> rfl

theorem body_closeAt (h : closeAt cs = (t, rest)) : t.body r = ([], r) := by
  rw [closeAt] at h
  split at h <;> obtain ⟨rfl, -⟩ := Prod.mk.inj h <;> rfl

end Token

namespace Cursor

variable {input cs behind : List Char} {t : Token}

theorem rawChildren?_eq (body rest : List Char) :
    rawChildren? (body ++ rest) (utf8Length body) =
      some (if body.isEmpty then [] else [.text (String.ofList body)]) := by
  cases body with
  | nil => rfl
  | cons c body =>
    rw [rawChildren?, if_pos (utf8Length_pos (List.cons_ne_nil c body)), takeBytes?_append]
    rfl

theorem openElement?_eq {rest body : List Char} (h : cs <:+ input) {tag : Tag} {selfClosing : Bool}
    (hbody : (Token.start tag selfClosing).body cs = (body, rest)) (b : Builder) :
    openElement? input (offset input cs) tag selfClosing b = some (offset input rest,
      (.start tag selfClosing :: Token.ofBody body).foldl Builder.step b) := by
  have hleaf (hl : (selfClosing || tag.isVoid) = true) : (body, rest) = ([], cs) := by
    rw [← hbody]
    cases selfClosing with
    | true => rfl
    | false => simp [Token.body, Tag.isRaw_of_isVoid hl]
  rw [openElement?]
  split
  · next hl =>
    obtain ⟨rfl, rfl⟩ := Prod.mk.inj (hleaf hl)
    simp [Builder.step, hl]
  · next hl =>
    obtain ⟨rfl, hv⟩ : selfClosing = false ∧ tag.isVoid = false := by simpa using hl
    split
    · next hraw =>
      have hcut : Token.rawBody tag.name cs = (body, rest) := by
        simpa [Token.body, hraw] using hbody
      obtain rfl : cs = body ++ rest := Token.append_of_rawBody hcut
      rw [dropBytes?_offset h]
      simp only [Option.bind_eq_bind, Option.bind_some]
      rw [findMark?_rawBody, hcut, rawChildren?_eq, offset_add h]
      cases body <;> simp [Builder.step, Builder.append, hv]
    · next hraw =>
      obtain ⟨rfl, rfl⟩ : body = [] ∧ rest = cs := by simpa [Token.body, hraw, eq_comm] using hbody
      simp [Builder.step, hv]

theorem round?_of_not_marked (h : cs <:+ input) (hno : ∀ d ∈ ['!', '?', '/'], ¬ ['<', d] <+: cs)
    (b : Builder) : round? input (offset input cs) b =
      (tagAt? cs).bind fun
        | some (tag, selfClosing, consumed) =>
          openElement? input (offset input cs + consumed) tag selfClosing b
        | none => (takeBytes? cs (textEnd cs)).map fun source =>
          (offset input cs + textEnd cs, b.append [.text (String.ofList source)]) := by
  have hcomment : dropMark? "<!--".toList cs = none := by
    rw [dropMark?_eq_none_iff]
    exact fun hc => hno '!' (by simp) (.trans ⟨['-', '-'], rfl⟩ hc)
  have hclose : dropMark? "</".toList cs = none :=
    dropMark?_eq_none_iff.mpr (hno '/' (by simp))
  have hdeclaration : ¬ ("<!".toList <+: cs ∨ "<?".toList <+: cs) :=
    not_or.mpr ⟨hno '!' (by simp), hno '?' (by simp)⟩
  rw [round?, dropBytes?_offset h]
  simp only [Option.bind_eq_bind, Option.bind_some, hcomment, hclose, if_neg hdeclaration]
  congr 1
  funext tag?
  cases tag? with
  | none => cases takeBytes? cs (textEnd cs) <;> rfl
  | some tag => rfl

theorem round?_comment (h : '<' :: '!' :: '-' :: '-' :: cs <:+ input)
    (ht : Token.commentAt cs = (t, behind)) (b : Builder) :
    round? input (offset input ('<' :: '!' :: '-' :: '-' :: cs)) b =
      some (offset input behind, b.step t) := by
  have hmark : dropMark? "<!--".toList ('<' :: '!' :: '-' :: '-' :: cs) = some cs :=
    dropMark?_append "<!--".toList cs
  rw [round?, dropBytes?_offset h]
  simp only [Option.bind_eq_bind, Option.bind_some, hmark]
  rw [Token.commentAt] at ht
  rw [findMark?]
  cases hcut : cutAt? "-->".toList cs with
  | none =>
    rw [hcut] at ht
    obtain ⟨rfl, rfl⟩ := Prod.mk.inj ht
    simp [offset_end h, Builder.step]
  | some p =>
    obtain ⟨body, rest⟩ := p
    rw [hcut] at ht
    obtain ⟨rfl, rfl⟩ := Prod.mk.inj ht
    obtain rfl := eq_append_of_cutAt? hcut
    have hpos : offset input ('<' :: '!' :: '-' :: '-' :: (body ++ "-->".toList ++ rest)) +
        (4 + utf8Length body + 3) = offset input rest := by
      have hlist : "<!--".toList ++ body ++ "-->".toList ++ rest =
          '<' :: '!' :: '-' :: '-' :: (body ++ "-->".toList ++ rest) := by simp
      have hadd := offset_add (hlist ▸ h)
      rw [utf8Length_append, utf8Length_append, hlist] at hadd
      exact hadd
    have hbody : takeBytes? (body ++ "-->".toList ++ rest) (utf8Length body) = some body := by
      rw [List.append_assoc, takeBytes?_append]
    simp only [Option.map_some, hbody, Option.bind_some, hpos, Builder.step]
    rfl

theorem round?_declaration {d : Char} (h : '<' :: d :: cs <:+ input) (hd : d = '!' ∨ d = '?')
    (hno : ¬ "<!--".toList <+: '<' :: d :: cs) (ht : Token.declarationAt (d :: cs) = (t, behind))
    (b : Builder) : round? input (offset input ('<' :: d :: cs)) b =
      some (offset input behind, b.step t) := by
  have hmark : "<!".toList <+: '<' :: d :: cs ∨ "<?".toList <+: '<' :: d :: cs := by
    rcases hd with rfl | rfl <;> simp
  rw [round?, dropBytes?_offset h]
  simp only [Option.bind_eq_bind, Option.bind_some, dropMark?_eq_none_iff.mpr hno, if_pos hmark]
  rw [Token.declarationAt] at ht
  rw [findMark?_cons (by simp), findMark?]
  cases hcut : cutAt? ['>'] (d :: cs) with
  | none =>
    rw [hcut] at ht
    obtain ⟨rfl, rfl⟩ := Prod.mk.inj ht
    have hall := takeBytes?_append ('<' :: d :: cs) []
    rw [List.append_nil] at hall
    simp [hall, offset_end h, Builder.step]
  | some p =>
    obtain ⟨body, rest⟩ := p
    rw [hcut] at ht
    obtain ⟨rfl, rfl⟩ := Prod.mk.inj ht
    have hlist : '<' :: body ++ ['>'] ++ rest = '<' :: d :: cs := by
      simp [eq_append_of_cutAt? hcut]
    have hbody := takeBytes?_append ('<' :: body ++ ['>']) rest
    have hadd := offset_add (hlist ▸ h)
    rw [hlist] at hadd hbody
    have hstop : '<'.utf8Size + utf8Length body + 1 = utf8Length ('<' :: body ++ ['>']) :=
      (utf8Length_append ('<' :: body) ['>']).symm
    simp only [Option.map_some, Option.getD_some]
    rw [hstop, hbody, Option.bind_some, hadd]
    rfl

theorem round?_close (h : '<' :: '/' :: cs <:+ input) (ht : Token.closeAt cs = (t, behind))
    (b : Builder) : round? input (offset input ('<' :: '/' :: cs)) b =
      some (offset input behind, b.step t) := by
  have hcomment : dropMark? "<!--".toList ('<' :: '/' :: cs) = none :=
    dropMark?_eq_none_iff.mpr (by simp)
  have hclose : dropMark? "</".toList ('<' :: '/' :: cs) = some cs :=
    dropMark?_append "</".toList cs
  have hmark : ¬ ("<!".toList <+: '<' :: '/' :: cs ∨ "<?".toList <+: '<' :: '/' :: cs) := by simp
  rw [round?, dropBytes?_offset h]
  simp only [Option.bind_eq_bind, Option.bind_some, hcomment, hclose, if_neg hmark]
  rw [Token.closeAt] at ht
  rw [findMark?]
  cases hcut : cutAt? ['>'] cs with
  | none =>
    rw [hcut] at ht
    obtain ⟨rfl, rfl⟩ := Prod.mk.inj ht
    have hall := takeBytes?_append cs []
    rw [List.append_nil] at hall
    have hlen : utf8Length ('<' :: '/' :: cs) = 2 + utf8Length cs := utf8Length_append ['<', '/'] cs
    -- one byte is counted for a bracket that is not there
    have hstop : min (2 + utf8Length cs + 1) (utf8Length ('<' :: '/' :: cs)) =
        utf8Length ('<' :: '/' :: cs) := by omega
    simp only [Option.map_none, Option.getD_none]
    rw [hall, Option.bind_some, hstop, offset_end h]
    rfl
  | some p =>
    obtain ⟨name, rest⟩ := p
    rw [hcut] at ht
    obtain ⟨rfl, rfl⟩ := Prod.mk.inj ht
    obtain rfl : cs = name ++ '>' :: rest := by simpa using eq_append_of_cutAt? hcut
    have hlist : '<' :: '/' :: name ++ ['>'] ++ rest = '<' :: '/' :: (name ++ '>' :: rest) := by
      simp
    have hadd := offset_add (hlist ▸ h)
    have hlen := utf8Length_append ('<' :: '/' :: name ++ ['>']) rest
    have hread : utf8Length ('<' :: '/' :: name ++ ['>']) = 2 + utf8Length name + 1 := by
      rw [utf8Length_append]
      exact congrArg (· + 1) (utf8Length_append ['<', '/'] name)
    rw [hlist, hread] at hadd hlen
    have hstop : min (2 + utf8Length name + 1) (utf8Length ('<' :: '/' :: (name ++ '>' :: rest))) =
        2 + utf8Length name + 1 := by omega
    simp only [Option.map_some, Option.getD_some]
    rw [takeBytes?_append, Option.bind_some, hstop, hadd]
    rfl

theorem textEnd_eq (c : Char) (cs : List Char) :
    textEnd (c :: cs) = utf8Length (c :: cs.takeWhile (· ≠ '<')) := by
  rw [textEnd, find?_getD, utf8Length_cons]
  simp only [ne_eq, decide_not]

theorem round?_text {c : Char} (h : c :: cs <:+ input)
    (hno : ∀ d ∈ ['!', '?', '/'], ¬ ['<', d] <+: c :: cs) (htag : tagAt? (c :: cs) = some none)
    (ht : Token.textAt c cs = (t, behind)) (b : Builder) :
    round? input (offset input (c :: cs)) b = some (offset input behind, b.step t) := by
  simp only [Token.textAt, Prod.mk.injEq] at ht
  obtain ⟨rfl, rfl⟩ := ht
  have hlist : c :: cs.takeWhile (· ≠ '<') ++ cs.dropWhile (· ≠ '<') = c :: cs := by simp
  have hsource := takeBytes?_append (c :: cs.takeWhile (· ≠ '<')) (cs.dropWhile (· ≠ '<'))
  have hadd := offset_add (hlist ▸ h)
  rw [hlist] at hsource hadd
  rw [round?_of_not_marked h hno, htag, Option.bind_some, textEnd_eq, hsource, hadd]
  rfl

theorem tagAt?_of_ne {c : Char} (hc : c ≠ '<') (cs : List Char) : tagAt? (c :: cs) = some none := by
  rw [tagAt?, if_neg (by simpa using hc)]
  rfl

theorem tagAt?_bracket (cs : List Char) : tagAt? ('<' :: cs) =
    if cs.head?.any Token.isLetter then startTag? ('<' :: cs) else some none := by
  have hdrop : dropBytes? ('<' :: cs) 1 = some cs := dropBytes?_append ['<'] cs
  rw [tagAt?, List.head?_cons, if_pos rfl, hdrop]
  rfl

/-- A round reads the next token with its raw body, and moves on to what is behind both. -/
theorem round?_eq {c : Char} {rest body : List Char} (h : c :: cs <:+ input)
    (hn : Token.next c cs = (t, behind)) (hb : t.body behind = (body, rest)) (b : Builder) :
    round? input (offset input (c :: cs)) b = some (offset input rest,
      (t :: Token.ofBody body).foldl Builder.step b) := by
  have hleaf (hbody : t.body behind = ([], behind))
      (hround : round? input (offset input (c :: cs)) b = some (offset input behind, b.step t)) :
      round? input (offset input (c :: cs)) b = some (offset input rest,
        (t :: Token.ofBody body).foldl Builder.step b) := by
    obtain ⟨rfl, rfl⟩ := Prod.mk.inj (hbody.symm.trans hb)
    exact hround
  rw [Token.next.eq_def] at hn
  split at hn
  · next hc =>
    subst hc
    split at hn
    · exact hleaf (Token.body_commentAt hn) (round?_comment h hn b)
    · next hno =>
      refine hleaf (Token.body_declarationAt hn) (round?_declaration h (.inl rfl) ?_ hn b)
      rintro ⟨r, hr⟩
      exact hno r (List.cons.inj (List.cons.inj hr).2).2.symm
    · refine hleaf (Token.body_declarationAt hn) (round?_declaration h (.inr rfl) ?_ hn b)
      simp
    · exact hleaf (Token.body_closeAt hn) (round?_close h hn b)
    · next d r hcomment hbang hquestion hslash =>
      have hno : ∀ x ∈ ['!', '?', '/'], ¬ ['<', x] <+: '<' :: d :: r := by
        intro x hx hp
        obtain rfl : x = d := (List.cons_prefix_cons.mp (List.cons_prefix_cons.mp hp).2).1
        simp only [List.mem_cons, List.not_mem_nil, or_false] at hx
        rcases hx with hx | hx | hx
        · exact hbang hx
        · exact hquestion hx
        · exact hslash hx
      have htag := tagAt?_bracket (d :: r)
      split at hn
      · next hl =>
        rw [List.head?_cons, Option.any_some, if_pos hl, startTag?_eq] at htag
        split at hn
        · next tag selfClosing rest' ht =>
          obtain ⟨rfl, rfl⟩ := Prod.mk.inj hn
          obtain ⟨a, ha⟩ := Tag.exists_of_ofChars? ht
          have hrest : rest' <:+ '<' :: d :: r := ⟨'<' :: a ++ ['>'], by simp [ha]⟩
          rw [ht] at htag
          rw [round?_of_not_marked h hno, htag]
          simp only [Option.map_some, Option.bind_some]
          rw [offset_trans h hrest]
          exact openElement?_eq (hrest.trans h) hb b
        · next ht =>
          rw [ht] at htag
          exact hleaf (Token.body_textAt hn) (round?_text h hno htag hn b)
      · next hl =>
        rw [List.head?_cons, Option.any_some, if_neg hl] at htag
        exact hleaf (Token.body_textAt hn) (round?_text h hno htag hn b)
    · exact hleaf (Token.body_textAt hn)
        (round?_text h (by simp) (tagAt?_bracket []) hn b)
  · next hc =>
    refine hleaf (Token.body_textAt hn) (round?_text h ?_ (tagAt?_of_ne hc cs) hn b)
    intro d _ hd
    exact hc (List.cons_prefix_cons.mp hd).1.symm

theorem rest_of_next {c : Char} {rest body : List Char} (hn : Token.next c cs = (t, behind))
    (hb : t.body behind = (body, rest)) : rest <:+ c :: cs ∧ rest ≠ c :: cs := by
  obtain ⟨s, hs, hsource⟩ := Token.exists_source_next hn
  rw [hs, Token.append_of_body hb, ← List.append_assoc]
  refine ⟨List.suffix_append _ _, fun he => hsource.ne_nil ?_⟩
  have hlen := congrArg List.length he
  simp only [List.length_append] at hlen
  exact List.length_eq_zero_iff.mp (by omega)

theorem exists_round? {pos : Nat} (h : IsBoundary input pos) (hpos : pos < utf8Length input)
    (b : Builder) : ∃ next b', round? input pos b = some (next, b') ∧ pos < next ∧
      next ≤ utf8Length input ∧ IsBoundary input next := by
  obtain ⟨cs, hcs, rfl⟩ := isBoundary_iff.mp h
  cases cs with
  | nil => simp [offset, utf8Length_nil] at hpos
  | cons c cs =>
    rcases hn : Token.next c cs with ⟨t, behind⟩
    rcases hb : t.body behind with ⟨body, rest⟩
    obtain ⟨hrest, hne⟩ := rest_of_next hn hb
    have hnext : IsBoundary input (offset input rest) :=
      isBoundary_iff.mpr ⟨rest, hrest.trans hcs, rfl⟩
    exact ⟨_, _, round?_eq hcs hn hb b, offset_lt hcs hrest hne, hnext.le, hnext⟩

/-- The loop over the markup ends with the document of its tokens. -/
theorem run?_eq (h : cs <:+ input) (b : Builder) :
    run? input (offset input cs) b = some ((Token.all cs).foldl Builder.step b).finish := by
  rw [run?, loop?_eq, step?]
  fun_induction Token.all cs generalizing b with
  | case1 =>
    rw [if_neg (by simp [offset, utf8Length_nil])]
    rfl
  | case2 c cs t behind hn body rest hb ih =>
    obtain ⟨hrest, hne⟩ := rest_of_next hn hb
    have hlt : offset input (c :: cs) < utf8Length input :=
      Nat.lt_of_lt_of_le (offset_lt h hrest hne) (Nat.sub_le _ _)
    rw [if_pos hlt, round?_eq h hn hb, List.foldl_append, ← ih (hrest.trans h)]
    -- behind this round, what is left is the loop from the rest on
    exact loop?_eq _ _

end Cursor

/-- The walk of the parser over the bytes of a markup ends with its document, for every markup, and
slices between characters only. A round of the parser moves on to a later boundary of the markup; a
round over the attributes of a tag ends the tag or moves on; a tag that is read ends with a bracket;
and a round over the references of a value is the last one or leaves less of it. -/
theorem walk_ends (markup : String) :
    Cursor.parse? markup = some (parse markup) ∧
    (∀ pos b, IsBoundary markup.toList pos → pos < utf8Length markup.toList →
      ∃ next b', Cursor.round? markup.toList pos b = some (next, b') ∧ pos < next ∧
        next ≤ utf8Length markup.toList ∧ IsBoundary markup.toList next) ∧
    (∀ input pos, IsBoundary input pos →
      ∃ r, Cursor.attributeRound? input pos = some r ∧ r.Advances input pos) ∧
    (∀ behind, ∃ r, Cursor.startTag? ('<' :: behind) = some r ∧
      ∀ tag selfClosing consumed, r = some (tag, selfClosing, consumed) →
        Cursor.EndsTag ('<' :: behind) consumed) ∧
    ∀ value, Cursor.decode? value = some (decode value) ∧
      ∃ out next, Cursor.decodeRound? value = some (out, next) ∧
        ∀ rest ∈ next, rest <:+ value ∧ rest ≠ value := by
  refine ⟨?_, fun pos b h hpos => Cursor.exists_round? h hpos b,
    fun input pos h => Cursor.exists_attributeRound? h, Cursor.exists_startTag?,
    fun value => ⟨Cursor.decode?_eq value, Cursor.exists_decodeRound? value⟩⟩
  have hrun := Cursor.run?_eq (List.suffix_refl markup.toList) {}
  rwa [offset_self] at hrun

end Questionnaire.Markup
